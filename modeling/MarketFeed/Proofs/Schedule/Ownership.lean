import Mathlib.Data.List.Nodup
import Mathlib.Logic.Relation
import MarketFeed.Proofs.Schedule.Effects
import MarketFeed.Proofs.Tier.Validation
/-!
Who holds the claim on a tier. Ticks, forced updates, the watchdog and the ends of refreshes happen
in any order. A refresh knows its claim only by the point in time at which it started, and refreshes
that the watchdog has given up go on beside newer ones; still every claim has exactly one holder,
because the starts of one tier's refreshes in flight lie further apart than its timeout.
-/

set_option autoImplicit false
set_option relaxedAutoImplicit false

namespace MarketFeed

namespace Tier

def patience (t : Tier) : Nat := max (600 * nanosPerSecond) (3 * t.interval.nanos)

theorem stuckTimeout_nanos (t : Tier) : t.stuckTimeout.nanos = min t.patience Duration.maxNanos := by
  have least : minStuckTimeout.nanos = 600 * nanosPerSecond := by decide
  have short : 600 * nanosPerSecond ≤ Duration.maxNanos := by decide
  have scaled : (t.interval.scale 3).nanos = min (t.interval.nanos * 3) Duration.maxNanos := rfl
  rw [stuckTimeout, Duration.longer, patience]
  split
  · rename_i longer
    rw [scaled]
    rw [least, scaled] at longer
    omega
  · rename_i shorter
    rw [least]
    rw [least, scaled] at shorter
    omega

private theorem patience_lt_of_isStuck {t : Tier} {s : State} {now started : Nat}
    (stuck : s.isStuck now t.stuckTimeout = true) (held : s.started = some started) :
    started + t.patience < now := by
  rw [State.isStuck, held] at stuck
  split at stuck
  · rename_i same
    cases same
    have late := of_decide_eq_true stuck
    have span : (Instant.since now started).nanos = min (now - started) Duration.maxNanos := rfl
    rw [stuckTimeout_nanos, span] at late
    omega
  · cases stuck

/-- The state of a tier beside the starts of its refreshes in flight, the earliest first: the starts
lie apart, the last of them holds the claim if there is one, and otherwise all of them are old. -/
structure Owned (t : Tier) (clock : Nat) (s : State) (starts : List Nat) : Prop where
  flag : s.isUpdating = s.started.isSome
  spaced : starts.Pairwise fun a b => a + t.patience < b
  past : ∀ a ∈ starts, a ≤ clock
  holder : ∀ o, s.started = some o → ∃ older, starts = older ++ [o]
  vacant : s.started = none → ∀ a ∈ starts, a + t.patience < clock

namespace Owned

variable {t : Tier} {clock now : Nat} {s : State} {starts : List Nat}

private theorem initial (t : Tier) (clock : Nat) : Owned t clock State.idle [] where
  flag := rfl
  spaced := List.Pairwise.nil
  past := by simp
  holder := by simp [State.idle]
  vacant := by simp

private theorem wait (h : Owned t clock s starts) (later : clock ≤ now) : Owned t now s starts where
  flag := h.flag
  spaced := h.spaced
  past a ha := Nat.le_trans (h.past a ha) later
  holder := h.holder
  vacant free a ha := Nat.lt_of_lt_of_le (h.vacant free a ha) later

private theorem relieve (h : Owned t clock s starts) (later : clock ≤ now) :
    Owned t now (s.relieved now t.stuckTimeout) starts := by
  rw [State.relieved]
  split
  · rename_i stuck
    refine ⟨rfl, h.spaced, (h.wait later).past, by simp [State.release], ?_⟩
    intro _ a ha
    cases held : s.started with
    | none => exact (h.wait later).vacant held a ha
    | some o =>
      obtain ⟨older, whole⟩ := h.holder o held
      have old := patience_lt_of_isStuck stuck held
      rw [whole, List.mem_append, List.mem_singleton] at ha
      rcases ha with ha | rfl
      · have before := h.spaced
        rw [whole, List.pairwise_append] at before
        have apart := before.2.2 a ha o (List.mem_singleton_self o)
        omega
      · exact old
  · exact h.wait later

private theorem claim (h : Owned t now s starts) (free : s.isUpdating = false) :
    Owned t now (s.claim now) (starts ++ [now]) := by
  have none_holds : s.started = none := by
    rw [h.flag] at free
    exact Option.not_isSome_iff_eq_none.mp (by simp [free])
  refine ⟨rfl, ?_, ?_, ?_, by simp [State.claim]⟩
  · rw [List.pairwise_append]
    refine ⟨h.spaced, List.pairwise_singleton _ _, fun a ha b hb => ?_⟩
    rw [List.mem_singleton.mp hb]
    exact h.vacant none_holds a ha
  · intro a ha
    rcases List.mem_append.mp ha with ha | ha
    · exact h.past a ha
    · exact Nat.le_of_eq (List.mem_singleton.mp ha)
  · intro o held
    cases held
    exact ⟨starts, rfl⟩

private theorem finish_started (s : State) (ended : Nat) (succeeded : Bool) (now : Nat) :
    (s.finish ended succeeded now).started = (if s.started = some ended then none else s.started) ∧
      (s.finish ended succeeded now).isUpdating =
        (if s.started = some ended then false else s.isUpdating) := by
  rw [State.finish]
  by_cases holds : s.started = some ended
  · cases succeeded <;> simp [holds, State.release]
  · cases succeeded <;> simp [holds]

private theorem erase_holder {older : List Nat} {o : Nat}
    (spaced : (older ++ [o]).Pairwise fun a b => a + t.patience < b) :
    (older ++ [o]).erase o = older := by
  have absent : o ∉ older := by
    intro member
    have apart := (List.pairwise_append.mp spaced).2.2 o member o (List.mem_singleton_self o)
    omega
  rw [List.erase_append_right _ absent, List.erase_cons_head, List.append_nil]

private theorem finish (h : Owned t clock s starts) (later : clock ≤ now) (ended : Nat)
    (succeeded : Bool) : Owned t now (s.finish ended succeeded now) (starts.erase ended) := by
  obtain ⟨started_after, flag_after⟩ := finish_started s ended succeeded now
  have apart := h.spaced.sublist (List.erase_sublist (a := ended) (l := starts))
  have kept : ∀ a ∈ starts.erase ended, a ∈ starts := fun a ha => List.mem_of_mem_erase ha
  by_cases holds : s.started = some ended
  · rw [if_pos holds] at started_after flag_after
    obtain ⟨older, whole⟩ := h.holder ended holds
    have spaced := h.spaced
    rw [whole] at spaced
    refine ⟨by rw [started_after, flag_after]; rfl, apart,
      fun a ha => (h.wait later).past a (kept a ha), by simp [started_after], ?_⟩
    intro _ a ha
    rw [whole, erase_holder spaced] at ha
    have before := (List.pairwise_append.mp spaced).2.2 a ha ended (List.mem_singleton_self ended)
    have reached := h.past ended (whole ▸ List.mem_append_right older (List.mem_singleton_self ended))
    omega
  · rw [if_neg holds] at started_after flag_after
    refine ⟨by rw [started_after, flag_after]; exact h.flag, apart,
      fun a ha => (h.wait later).past a (kept a ha), ?_, ?_⟩
    · intro o held
      rw [started_after] at held
      obtain ⟨older, whole⟩ := h.holder o held
      have other : ended ≠ o := fun same => holds (same ▸ held)
      rw [whole, List.erase_append]
      split
      · exact ⟨older.erase ended, rfl⟩
      · exact ⟨older, by rw [List.erase_of_not_mem (by simpa using other)]⟩
    · intro free a ha
      rw [started_after] at free
      exact (h.wait later).vacant free a (kept a ha)

end Owned

end Tier

namespace Schedule

/-- A refresh in flight: the tier for which it was claimed, and when. -/
structure Flight where
  tier : String
  started : Nat
  deriving DecidableEq, Repr

/-- A schedule, the refreshes in flight in the order in which they were claimed, and the last point
in time at which something happened. -/
structure Board where
  schedule : Schedule
  flights : List Flight
  clock : Nat

namespace Board

/-- What happens on a board: a tick, a forced update, a look of the watchdog, and the end of a refresh
with success or without (by a failure or a cancellation). -/
inductive Act where
  | check
  | force
  | watchdog
  | ended (flight : Flight) (succeeded : Bool)
  deriving DecidableEq, Repr

namespace Act

def watches : Act → Bool
  | .check | .force | .watchdog => true
  | .ended _ _ => false

/-- Whether a tier in a state is claimed: after the look of the watchdog, a tick claims it if it is due
and a forced update if it is idle. -/
def claims (t : Tier) (now : Nat) (s : Tier.State) : Act → Bool
  | .check => (s.relieved now t.stuckTimeout).isDue now t.interval
  | .force => !(s.relieved now t.stuckTimeout).isUpdating
  | .watchdog | .ended _ _ => false

def next (t : Tier) (now : Nat) (s : Tier.State) : Act → Tier.State
  | .ended f succeeded => if f.tier = t.name then s.finish f.started succeeded now else s
  | a =>
    if a.claims t now s then (s.relieved now t.stuckTimeout).claim now
    else s.relieved now t.stuckTimeout

end Act

def ofTiers (tiers : List Tier) (clock : Nat) : Board := ⟨.ofTiers tiers, [], clock⟩

def stateOf (b : Board) (name : String) : Tier.State := b.schedule.stateOf name

def claimed (b : Board) (now : Nat) : Act → List Tier
  | .check => (b.schedule.claimDue now).1
  | .force => (b.schedule.claimIdle now).1
  | .watchdog | .ended _ _ => []

def released (b : Board) (now : Nat) : Act → List String
  | .check | .force | .watchdog => (b.schedule.watchdog now).1
  | .ended _ _ => []

def scheduleAfter (b : Board) (now : Nat) : Act → Schedule
  | .check => (b.schedule.claimDue now).2
  | .force => (b.schedule.claimIdle now).2
  | .watchdog => (b.schedule.watchdog now).2
  | .ended f succeeded => b.schedule.finish f.tier f.started succeeded now

/-- The refreshes in flight after what happens at `now`: each claim starts one, each end takes one
away. -/
def flightsAfter (b : Board) (now : Nat) : Act → List Flight
  | .ended f _ => b.flights.erase f
  | a => b.flights ++ (b.claimed now a).map fun t => ⟨t.name, now⟩

def after (b : Board) (now : Nat) (a : Act) : Board := ⟨b.scheduleAfter now a, b.flightsAfter now a, now⟩

/-- What can happen: only a refresh in flight can end. -/
def Allows (b : Board) : Act → Prop
  | .ended f _ => f ∈ b.flights
  | _ => True

inductive Step : Board → Board → Prop
  | act {b : Board} {now : Nat} {a : Act} (later : b.clock ≤ now) (allowed : b.Allows a) :
      Step b (b.after now a)

def Leads : Board → Board → Prop := Relation.ReflTransGen Step

/-- The starts of a tier's refreshes in flight, the earliest first. -/
def starts (b : Board) (name : String) : List Nat :=
  (b.flights.filter fun f => f.tier = name).map Flight.started

/-- The refreshes in flight that hold the claim on a tier: those that started when it was claimed. -/
def holders (b : Board) (name : String) : List Flight :=
  b.flights.filter fun f => f.tier = name ∧ (b.stateOf name).started = some f.started

structure Sound (tiers : List Tier) (b : Board) : Prop where
  tiers_eq : b.schedule.tiers = tiers
  known : ∀ t ∈ tiers, b.schedule.Knows t.name
  owned : ∀ t ∈ tiers, t.Owned b.clock (b.stateOf t.name) (b.starts t.name)

section Preservation

variable {tiers : List Tier} {b : Board} {now : Nat}

private theorem starts_claims (nodup : (tiers.map Tier.name).Nodup) {t : Tier} (member : t ∈ tiers)
    (chosen : Tier → Bool) :
    (((tiers.filter chosen).map fun u => (⟨u.name, now⟩ : Flight)).filter
      fun f => f.tier = t.name).map Flight.started = if chosen t then [now] else [] := by
  induction tiers with
  | nil => cases member
  | cons u rest ih =>
    rw [List.map_cons, List.nodup_cons] at nodup
    rcases List.mem_cons.mp member with rfl | later
    · have none_later : ((rest.filter chosen).map fun u => (⟨u.name, now⟩ : Flight)).filter
          (fun f => f.tier = t.name) = [] := by
        rw [List.filter_eq_nil_iff]
        intro f hf same
        obtain ⟨v, hv, rfl⟩ := List.mem_map.mp hf
        exact nodup.1 (of_decide_eq_true same ▸ List.mem_map_of_mem (List.mem_filter.mp hv).1)
      by_cases taken : chosen t
      · simp [taken, none_later]
      · simp [taken, none_later]
    · have other : u.name ≠ t.name := fun same => nodup.1 (same ▸ List.mem_map_of_mem later)
      rw [← ih nodup.2 later]
      by_cases taken : chosen u
      · simp [taken, other]
      · simp [taken]

private theorem starts_erase (flights : List Flight) (f : Flight) (name : String) :
    ((flights.erase f).filter fun g => g.tier = name).map Flight.started =
      if f.tier = name then
        ((flights.filter fun g => g.tier = name).map Flight.started).erase f.started
      else (flights.filter fun g => g.tier = name).map Flight.started := by
  induction flights with
  | nil => simp
  | cons g rest ih =>
    by_cases same : g = f
    · subst same
      by_cases here : g.tier = name
      · simp [here]
      · simp [here]
    · rw [List.erase_cons_tail (by simpa using same)]
      by_cases here : g.tier = name
      · have start_ne : f.tier = name → g.started ≠ f.started := by
          intro there equal
          exact same (by cases g; cases f; simp_all)
        by_cases there : f.tier = name
        · simp [here, there, ih, start_ne there]
        · simp [here, there, ih]
      · simp [here, ih]

private theorem tiers_after (b : Board) (now : Nat) (a : Act) :
    (b.after now a).schedule.tiers = b.schedule.tiers := by
  cases a with
  | check => exact claimWhere_tiers.trans (watchdog_tiers b.schedule now)
  | force => exact claimWhere_tiers.trans (watchdog_tiers b.schedule now)
  | watchdog => exact watchdog_tiers b.schedule now
  | ended f succeeded => exact finish_tiers b.schedule f.tier f.started succeeded now

private theorem knows_after {name : String} (known : b.schedule.Knows name) (now : Nat) (a : Act) :
    (b.after now a).schedule.Knows name := by
  cases a with
  | check => exact claimWhere_knows (watchdog_knows known now)
  | force => exact claimWhere_knows (watchdog_knows known now)
  | watchdog => exact watchdog_knows known now
  | ended f succeeded => exact finish_knows known f.started succeeded now

theorem claimed_eq (h : Sound tiers b) (nodup : (tiers.map Tier.name).Nodup) (now : Nat) (a : Act) :
    b.claimed now a = tiers.filter fun t => a.claims t now (b.stateOf t.name) := by
  have tiers_eq := h.tiers_eq
  subst tiers_eq
  have watched := watchdog_tiers b.schedule now
  have nodup' : ((b.schedule.watchdog now).2.tiers.map Tier.name).Nodup := watched ▸ nodup
  cases a with
  | check =>
    rw [claimed, claimDue, claimWhere_claimed nodup', watched]
    refine List.filter_congr fun t ht => ?_
    rw [watchdog_stateOf nodup ht]
    rfl
  | force =>
    rw [claimed, claimIdle, claimWhere_claimed nodup', watched]
    refine List.filter_congr fun t ht => ?_
    rw [watchdog_stateOf nodup ht]
    rfl
  | watchdog => simp [claimed, Act.claims]
  | ended f succeeded => simp [claimed, Act.claims]

theorem released_eq (h : Sound tiers b) (nodup : (tiers.map Tier.name).Nodup) (now : Nat) (a : Act) :
    b.released now a =
      (tiers.filter fun t => a.watches && stuckAt now t (b.stateOf t.name)).map Tier.name := by
  have tiers_eq := h.tiers_eq
  subst tiers_eq
  cases a with
  | check | force | watchdog =>
    simp only [released, Act.watches, Bool.true_and]
    exact watchdog_released nodup now
  | ended f succeeded => simp [released, Act.watches]

/-- What an act makes of the state of a tier. -/
theorem stateOf_after (h : Sound tiers b) (nodup : (tiers.map Tier.name).Nodup) {t : Tier}
    (ht : t ∈ tiers) (now : Nat) (a : Act) :
    (b.after now a).stateOf t.name = a.next t now (b.stateOf t.name) := by
  have known := h.known t ht
  have tiers_eq := h.tiers_eq
  subst tiers_eq
  have watched := watchdog_tiers b.schedule now
  have nodup' : ((b.schedule.watchdog now).2.tiers.map Tier.name).Nodup := watched ▸ nodup
  have ht' : t ∈ (b.schedule.watchdog now).2.tiers := watched ▸ ht
  cases a with
  | check | force =>
    refine (claimWhere_stateOf nodup' ht').trans ?_
    rw [watchdog_stateOf nodup ht]
    rfl
  | watchdog => exact watchdog_stateOf nodup ht now
  | ended f succeeded =>
    rw [stateOf, after, scheduleAfter, Act.next]
    by_cases here : f.tier = t.name
    · rw [here, finish_stateOf known, if_pos rfl, if_pos rfl]
      rfl
    · rw [if_neg here]
      by_cases there : b.schedule.Knows f.tier
      · rw [finish_stateOf there, if_neg fun same => here same.symm]
        rfl
      · rw [finish, Option.not_isSome_iff_eq_none.mp there]
        rfl

private theorem starts_after (h : Sound tiers b) (nodup : (tiers.map Tier.name).Nodup) {t : Tier}
    (ht : t ∈ tiers) (now : Nat) (a : Act) :
    (b.after now a).starts t.name =
      match a with
      | .ended f _ =>
        if f.tier = t.name then (b.starts t.name).erase f.started else b.starts t.name
      | a => b.starts t.name ++ if a.claims t now (b.stateOf t.name) then [now] else [] := by
  have claims := claimed_eq h nodup now a
  cases a with
  | check | force | watchdog =>
    simp only [starts, after, flightsAfter, claims, List.filter_append, List.map_append]
    rw [starts_claims nodup ht]
  | ended f succeeded => exact starts_erase b.flights f t.name

private theorem free_of_claims {a : Act} {t : Tier} {s : Tier.State}
    (taken : a.claims t now s = true) : (s.relieved now t.stuckTimeout).isUpdating = false := by
  cases a with
  | check =>
    rw [Act.claims, Tier.State.isDue, Bool.and_eq_true] at taken
    simpa using taken.1
  | force => simpa [Act.claims] using taken
  | watchdog | ended f succeeded => cases taken

theorem after_sound (h : Sound tiers b) (nodup : (tiers.map Tier.name).Nodup)
    (later : b.clock ≤ now) (a : Act) : Sound tiers (b.after now a) := by
  refine ⟨(tiers_after b now a).trans h.tiers_eq, fun t ht => knows_after (h.known t ht) now a,
    fun t ht => ?_⟩
  have state := stateOf_after h nodup ht now a
  have starts := starts_after h nodup ht now a
  have owned := h.owned t ht
  rw [state, starts]
  cases a with
  | check | force | watchdog =>
    simp only [Act.next]
    split
    · rename_i taken
      exact (owned.relieve later).claim (free_of_claims taken)
    · rw [List.append_nil]
      exact owned.relieve later
  | ended f succeeded =>
    simp only [Act.next]
    split
    · exact owned.finish later f.started succeeded
    · exact owned.wait later

theorem ofTiers_sound (tiers : List Tier) (clock : Nat) :
    Sound tiers (ofTiers tiers clock) := by
  refine ⟨rfl, fun t ht => ofTiers_knows ht, fun t _ => ?_⟩
  have idle : (ofTiers tiers clock).stateOf t.name = .idle := ofTiers_stateOf tiers t.name
  rw [idle]
  exact Tier.Owned.initial t clock

theorem leads_sound {b' : Board} (h : Sound tiers b) (nodup : (tiers.map Tier.name).Nodup)
    (run : b.Leads b') : Sound tiers b' := by
  induction run with
  | refl => exact h
  | tail _ step ih =>
    cases step with
    | act later _ => exact after_sound ih nodup later _

private theorem length_holders (b : Board) (name : String) {o : Nat}
    (held : (b.stateOf name).started = some o) :
    (b.holders name).length = (b.starts name).count o := by
  rw [holders, starts, List.count_eq_countP, List.countP_map, List.countP_filter,
    List.countP_eq_length_filter, held]
  refine congrArg List.length (List.filter_congr fun f _ => ?_)
  rw [Bool.eq_iff_iff]
  simp only [decide_eq_true_eq, Option.some.injEq, Bool.and_eq_true, Function.comp_apply, beq_iff_eq]
  exact ⟨fun ⟨here, same⟩ => ⟨same.symm, here⟩, fun ⟨same, here⟩ => ⟨here, same.symm⟩⟩

private theorem holders_iff {t : Tier}
    (h : t.Owned b.clock (b.stateOf t.name) (b.starts t.name)) :
    (b.stateOf t.name).started.isSome = true ↔ (b.holders t.name).length = 1 := by
  cases held : (b.stateOf t.name).started with
  | none =>
    have nobody : b.holders t.name = [] := List.filter_eq_nil_iff.mpr (by simp [held])
    simp [nobody]
  | some o =>
    obtain ⟨older, whole⟩ := h.holder o held
    have spaced := h.spaced
    rw [whole] at spaced
    have absent : o ∉ older := by
      intro member
      have apart := (List.pairwise_append.mp spaced).2.2 o member o (List.mem_singleton_self o)
      omega
    rw [length_holders b t.name held, whole, List.count_append, List.count_singleton_self,
      List.count_eq_zero_of_not_mem absent]
    simp

private theorem flights_apart {t : Tier}
    (h : t.Owned b.clock (b.stateOf t.name) (b.starts t.name)) :
    b.flights.Pairwise fun f g =>
      f.tier = t.name → g.tier = t.name → f.started + t.patience < g.started := by
  have spaced := h.spaced
  rw [starts, List.pairwise_map, List.pairwise_filter] at spaced
  refine spaced.imp fun apart here there => ?_
  exact apart (decide_eq_true here) (decide_eq_true there)

private theorem next_of_untouched {t : Tier} {s : Tier.State} {a : Act}
    (unclaimed : a.claims t now s = false) (unreleased : (a.watches && stuckAt now t s) = false)
    (unended : ∀ f succeeded, a = .ended f succeeded → f.tier ≠ t.name) : a.next t now s = s := by
  cases a with
  | check | force | watchdog =>
    have free : s.isStuck now t.stuckTimeout = false := unreleased
    have same : s.relieved now t.stuckTimeout = s := by
      rw [Tier.State.relieved, free]
      rfl
    simp only [Act.next, unclaimed, same, Bool.false_eq_true, if_false]
  | ended f succeeded => exact if_neg (unended f succeeded rfl)

private def Stale (b : Board) (f : Flight) : Prop :=
  (b.stateOf f.tier).started ≠ some f.started ∧ f.started < b.clock

private theorem next_started (t : Tier) (s : Tier.State) (now : Nat) (a : Act) :
    (a.next t now s).started = none ∨ (a.next t now s).started = s.started ∨
      (a.next t now s).started = some now := by
  have looked : (s.relieved now t.stuckTimeout).started = none ∨
      (s.relieved now t.stuckTimeout).started = s.started := by
    rw [Tier.State.relieved]
    split
    · exact Or.inl rfl
    · exact Or.inr rfl
  cases a with
  | check | force | watchdog =>
    simp only [Act.next]
    split
    · exact Or.inr (Or.inr rfl)
    · exact looked.imp id Or.inl
  | ended f succeeded =>
    simp only [Act.next]
    split
    · rw [(Tier.Owned.finish_started s f.started succeeded now).1]
      split
      · exact Or.inl rfl
      · exact Or.inr (Or.inl rfl)
    · exact Or.inr (Or.inl rfl)

private theorem stale_after (h : Sound tiers b) (nodup : (tiers.map Tier.name).Nodup) {f : Flight}
    {t : Tier} (ht : t ∈ tiers) (here : f.tier = t.name) (stale : b.Stale f)
    (later : b.clock ≤ now) (a : Act) : (b.after now a).Stale f := by
  obtain ⟨lost, old⟩ := stale
  rw [here] at lost
  refine ⟨?_, Nat.lt_of_lt_of_le old later⟩
  rw [here, stateOf_after h nodup ht]
  rcases next_started t (b.stateOf t.name) now a with free | same | fresh
  · simp [free]
  · rw [same]
    exact lost
  · rw [fresh]
    intro equal
    have equal' : now = f.started := Option.some.inj equal
    omega

private theorem stale_leads {b' : Board} (h : Sound tiers b) (nodup : (tiers.map Tier.name).Nodup)
    {f : Flight} {t : Tier} (ht : t ∈ tiers) (here : f.tier = t.name) (stale : b.Stale f)
    (run : b.Leads b') : b'.Stale f := by
  induction run with
  | refl => exact stale
  | tail run step ih =>
    cases step with
    | act later _ => exact stale_after (leads_sound h nodup run) nodup ht here ih later _

private theorem stale_of_released (h : Sound tiers b) (nodup : (tiers.map Tier.name).Nodup)
    {f : Flight} {t : Tier} (ht : t ∈ tiers) (here : f.tier = t.name)
    (held : (b.stateOf t.name).started = some f.started) {a : Act}
    (released : t.name ∈ b.released now a) : (b.after now a).Stale f := by
  rw [released_eq h nodup] at released
  obtain ⟨u, hu, same⟩ := List.mem_map.mp released
  obtain ⟨hu, watched⟩ := List.mem_filter.mp hu
  obtain rfl : u = t := List.inj_on_of_nodup_map nodup hu ht same
  rw [Bool.and_eq_true] at watched
  have old := Tier.patience_lt_of_isStuck watched.2 held
  have freed : ((b.stateOf u.name).relieved now u.stuckTimeout).started = none := by
    have stuck : (b.stateOf u.name).isStuck now u.stuckTimeout = true := watched.2
    rw [Tier.State.relieved, if_pos stuck]
    rfl
  have old' : f.started < now := by omega
  refine ⟨?_, old'⟩
  rw [here, stateOf_after h nodup ht]
  cases a with
  | check | force | watchdog =>
    simp only [Act.next]
    split
    · intro equal
      have equal' : now = f.started := Option.some.inj equal
      omega
    · rw [freed]
      exact nofun
  | ended g succeeded => cases watched.1

end Preservation

/-- On every board that an accepted list of tiers can come to:
a tier is marked as updating exactly if it has a start, and exactly if one refresh in flight, and no
other, started then; refreshes of one tier in flight started further apart than its timeout, which is
the longer of ten minutes and three intervals; whatever happens, only tiers that it claims, releases
or ends a refresh of change their state; and the end of a refresh from which the watchdog took the
claim earlier leaves the mark and the start as they are, whoever holds the claim by then. -/
theorem claims_exclusive {tiers : List Tier} (accepted : Tier.validate tiers = none) {clock : Nat}
    {b : Board} (run : (ofTiers tiers clock).Leads b) :
    (∀ t ∈ tiers,
      ((b.stateOf t.name).isUpdating = true ↔ (b.stateOf t.name).started.isSome = true) ∧
      ((b.stateOf t.name).started.isSome = true ↔ (b.holders t.name).length = 1)) ∧
    (∀ t ∈ tiers,
      t.stuckTimeout.nanos =
        min (max (600 * nanosPerSecond) (3 * t.interval.nanos)) Duration.maxNanos ∧
      b.flights.Pairwise fun f g => f.tier = t.name → g.tier = t.name →
        f.started + max (600 * nanosPerSecond) (3 * t.interval.nanos) < g.started) ∧
    (∀ now a, b.clock ≤ now → b.Allows a → ∀ t ∈ tiers,
      (b.after now a).stateOf t.name ≠ b.stateOf t.name →
        t ∈ b.claimed now a ∨ t.name ∈ b.released now a ∨
          ∃ f succeeded, a = .ended f succeeded ∧ f.tier = t.name) ∧
    (∀ b₀ now₀ a₀, (ofTiers tiers clock).Leads b₀ → b₀.clock ≤ now₀ → b₀.Allows a₀ →
      (b₀.after now₀ a₀).Leads b → ∀ t ∈ tiers, ∀ f : Flight, f.tier = t.name →
        (b₀.stateOf t.name).started = some f.started → t.name ∈ b₀.released now₀ a₀ →
        f ∈ b.flights → ∀ now succeeded, b.clock ≤ now →
          ((b.after now (.ended f succeeded)).stateOf t.name).isUpdating =
            (b.stateOf t.name).isUpdating ∧
          ((b.after now (.ended f succeeded)).stateOf t.name).started =
            (b.stateOf t.name).started) := by
  have nodup := Tier.names_nodup_of_validate accepted
  have sound : Sound tiers b := leads_sound (ofTiers_sound tiers clock) nodup run
  refine ⟨fun t ht => ⟨?_, holders_iff (sound.owned t ht)⟩,
    fun t ht => ⟨t.stuckTimeout_nanos, flights_apart (sound.owned t ht)⟩, ?_, ?_⟩
  · rw [(sound.owned t ht).flag]
  · intro now a _ _ t ht changed
    by_contra untouched
    rw [not_or, not_or] at untouched
    obtain ⟨unclaimed, unreleased, unended⟩ := untouched
    rw [claimed_eq sound nodup, List.mem_filter, not_and, Bool.not_eq_true] at unclaimed
    rw [released_eq sound nodup] at unreleased
    have unwatched : (a.watches && stuckAt now t (b.stateOf t.name)) = false := by
      rw [← Bool.not_eq_true]
      intro watched
      exact unreleased (List.mem_map_of_mem (List.mem_filter.mpr ⟨ht, watched⟩))
    apply changed
    rw [stateOf_after sound nodup ht]
    exact next_of_untouched (unclaimed ht) unwatched
      fun f succeeded same here => unended ⟨f, succeeded, same, here⟩
  · intro b₀ now₀ a₀ run₀ later₀ _ run₁ t ht f here held released _ now succeeded _
    have sound₀ : Sound tiers b₀ := leads_sound (ofTiers_sound tiers clock) nodup run₀
    have stale₁ := stale_of_released sound₀ nodup ht here held released
    have stale := (stale_leads (after_sound sound₀ nodup later₀ a₀) nodup ht here stale₁ run₁).1
    rw [here] at stale
    obtain ⟨started_after, flag_after⟩ :=
      Tier.Owned.finish_started (b.stateOf t.name) f.started succeeded now
    rw [if_neg stale] at started_after flag_after
    rw [stateOf_after sound nodup ht, Act.next, if_pos here]
    exact ⟨flag_after, started_after⟩

def minuteTier : Tier := ⟨"top", 1, 100, Duration.ofSeconds 60, false⟩

def overtaken : Board :=
  ((ofTiers [minuteTier] 0).after 0 .check).after (601 * nanosPerSecond) .check

theorem claims_exclusive_overtaken :
    Tier.validate [minuteTier] = none ∧ (ofTiers [minuteTier] 0).Leads overtaken ∧
      overtaken.flights = [⟨"top", 0⟩, ⟨"top", 601 * nanosPerSecond⟩] ∧
      (overtaken.stateOf "top").isUpdating = true ∧ (overtaken.holders "top").length = 1 := by
  have accepted : Tier.validate [minuteTier] = none := by decide +kernel
  have first : Step (ofTiers [minuteTier] 0) ((ofTiers [minuteTier] 0).after 0 .check) :=
    .act (Nat.le_refl 0) trivial
  have second : Step ((ofTiers [minuteTier] 0).after 0 .check) overtaken :=
    .act (Nat.zero_le _) trivial
  have run : (ofTiers [minuteTier] 0).Leads overtaken :=
    (Relation.ReflTransGen.single first).tail second
  have updating : (overtaken.stateOf "top").isUpdating = true := by decide
  have held := (claims_exclusive accepted run).1 minuteTier List.mem_cons_self
  exact ⟨accepted, run, by decide, updating, held.2.mp (held.1.mp updating)⟩

end Board

end Schedule

end MarketFeed
