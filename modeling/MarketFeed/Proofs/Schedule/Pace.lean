import MarketFeed.Proofs.Schedule.Ownership
/-!
How often tiers are refreshed. The last update of a tier is the time of its latest success, whatever
failed, was given up by the watchdog or came late in between; a tick claims a tier exactly if nobody
holds it and its latest success is at least one interval old.
-/

set_option autoImplicit false
set_option relaxedAutoImplicit false

namespace MarketFeed

namespace Tier.State

theorem relieved_lastUpdate (s : State) (now : Instant) (timeout : Duration) :
    (s.relieved now timeout).lastUpdate = s.lastUpdate := by
  rw [relieved]
  split
  · rfl
  · rfl

theorem finish_lastUpdate (s : State) (started : Instant) (succeeded : Bool) (now : Instant) :
    (s.finish started succeeded now).lastUpdate =
      if succeeded then some (s.lastUpdate.elim now fun last => max last now)
      else s.lastUpdate := by
  have released : (if s.started = some started then s.release else s).lastUpdate =
      s.lastUpdate := by
    split
    · rfl
    · rfl
  rw [finish]
  cases succeeded with
  | false => exact released
  | true =>
    simp only [if_true, released]
    cases s.lastUpdate <;> rfl

end Tier.State

theorem Schedule.finish_failed_lastUpdate (s : Schedule) (name : String) (started now : Instant)
    (other : String) :
    ((s.finish name started false now).stateOf other).lastUpdate =
      (s.stateOf other).lastUpdate := by
  cases held : s.states.get? name with
  | none => rw [finish, held]
  | some state =>
    have known : s.Knows name := by rw [Knows, held]; rfl
    rw [finish_stateOf known]
    split
    · rename_i same
      rw [same, Tier.State.finish_lastUpdate]
      rfl
    · rfl

namespace Schedule.Board

def successAt? (name : String) : Nat × Act → Option Nat
  | (now, .ended f true) => if f.tier = name then some now else none
  | _ => none

theorem successAt?_eq_some_iff {name : String} {now time : Nat} {a : Act} :
    successAt? name (now, a) = some time ↔
      time = now ∧ ∃ f, a = .ended f true ∧ f.tier = name := by
  cases a with
  | check | force | watchdog => simp [successAt?]
  | ended f succeeded =>
    cases succeeded with
    | false => simp [successAt?]
    | true =>
      by_cases here : f.tier = name
      · simp [successAt?, here, eq_comm]
      · simp [successAt?, here]

def successes (name : String) (happened : List (Nat × Act)) : List Nat :=
  happened.filterMap (successAt? name)

/-- `Happened start happened b`: from the board `start` on, exactly these things happened at these
times, none before the one ahead of it, and led to the board `b`. -/
inductive Happened (start : Board) : List (Nat × Act) → Board → Prop
  | nothing : Happened start [] start
  | act {happened : List (Nat × Act)} {b : Board} {now : Nat} {a : Act}
      (before : Happened start happened b) (later : b.clock ≤ now) (allowed : b.Allows a) :
      Happened start (happened ++ [(now, a)]) (b.after now a)

theorem Happened.leads {start b : Board} {happened : List (Nat × Act)}
    (run : Happened start happened b) : start.Leads b := by
  induction run with
  | nothing => exact .refl
  | act _ later allowed ih => exact ih.tail (.act later allowed)

/-- The last update of a tier beside the times of its successes so far. -/
structure Paced (clock : Nat) (s : Tier.State) (times : List Nat) : Prop where
  latest : s.lastUpdate = times.getLast?
  ordered : times.Pairwise (· ≤ ·)
  past : ∀ a ∈ times, a ≤ clock

section Pace

variable {tiers : List Tier} {t : Tier} {b : Board} {clock now : Nat} {s : Tier.State}
  {times : List Nat}

private theorem next_lastUpdate (t : Tier) (now : Nat) (s : Tier.State) (a : Act) :
    (a.next t now s).lastUpdate =
      match successAt? t.name (now, a) with
      | some _ => some (s.lastUpdate.elim now fun last => max last now)
      | none => s.lastUpdate := by
  have claimed : ∀ c : Bool, (if c then (s.relieved now t.stuckTimeout).claim now
      else s.relieved now t.stuckTimeout).lastUpdate = s.lastUpdate := by
    intro c
    cases c with
    | true => exact s.relieved_lastUpdate now t.stuckTimeout
    | false => exact s.relieved_lastUpdate now t.stuckTimeout
  cases a with
  | check => exact claimed _
  | force => exact claimed _
  | watchdog => exact claimed _
  | ended f succeeded =>
    rw [Act.next]
    by_cases here : f.tier = t.name
    · rw [if_pos here, s.finish_lastUpdate]
      cases succeeded <;> simp [successAt?, here]
    · rw [if_neg here]
      cases succeeded <;> simp [successAt?, here]

private theorem Paced.latest_or (h : Paced clock s times) (later : clock ≤ now) :
    (s.lastUpdate.elim now fun last => max last now) = now := by
  rw [h.latest]
  cases last : times.getLast? with
  | none => rfl
  | some a =>
    have old := h.past a (List.mem_of_getLast? last)
    exact Nat.max_eq_right (Nat.le_trans old later)

private theorem Paced.next (h : Paced clock s times) (later : clock ≤ now) (t : Tier) (a : Act) :
    Paced now (a.next t now s) (times ++ (successAt? t.name (now, a)).toList) := by
  have update := next_lastUpdate t now s a
  have before : ∀ x ∈ times, x ≤ now := fun x hx => Nat.le_trans (h.past x hx) later
  cases success : successAt? t.name (now, a) with
  | none =>
    rw [success] at update
    refine ⟨?_, ?_, ?_⟩
    · rw [update, h.latest, Option.toList_none, List.append_nil]
    · rw [Option.toList_none, List.append_nil]
      exact h.ordered
    · rw [Option.toList_none, List.append_nil]
      exact before
  | some time =>
    obtain ⟨rfl, -⟩ := successAt?_eq_some_iff.mp success
    rw [success] at update
    rw [Option.toList_some]
    refine ⟨?_, ?_, ?_⟩
    · rw [update, h.latest_or later, List.getLast?_concat]
    · rw [List.pairwise_append]
      refine ⟨h.ordered, List.pairwise_singleton _ _, fun x hx y hy => ?_⟩
      rw [List.mem_singleton.mp hy]
      exact before x hx
    · intro x hx
      rcases List.mem_append.mp hx with hx | hx
      · exact before x hx
      · exact Nat.le_of_eq (List.mem_singleton.mp hx)

private theorem Happened.paced (nodup : (tiers.map Tier.name).Nodup) {happened : List (Nat × Act)}
    (run : Happened (ofTiers tiers clock) happened b) (ht : t ∈ tiers) :
    Paced b.clock (b.stateOf t.name) (successes t.name happened) := by
  induction run with
  | nothing =>
    have idle : (ofTiers tiers clock).stateOf t.name = .idle := ofTiers_stateOf tiers t.name
    rw [idle]
    exact ⟨rfl, List.Pairwise.nil, by simp [successes]⟩
  | @act happened b now a before later allowed ih =>
    have sound := leads_sound (ofTiers_sound tiers clock) nodup before.leads
    have grown : successes t.name (happened ++ [(now, a)]) =
        successes t.name happened ++ (successAt? t.name (now, a)).toList := by
      rw [successes, List.filterMap_append]
      cases success : successAt? t.name (now, a) with
      | none => simp [successes, success]
      | some time => simp [successes, success]
    rw [stateOf_after sound nodup ht, grown]
    exact ih.next later t a

private theorem Paced.isDue_iff (h : Paced clock s times) (later : clock ≤ now)
    (interval : Duration) :
    s.isDue now interval = true ↔
      s.isUpdating = false ∧ ∀ a ∈ times, a + interval.nanos ≤ now := by
  rw [Tier.State.isDue, Bool.and_eq_true, Bool.not_eq_true', h.latest]
  refine and_congr_right fun _ => ?_
  cases last : times.getLast? with
  | none =>
    rw [List.getLast?_eq_none_iff] at last
    simp [last]
  | some a =>
    obtain ⟨earlier, whole⟩ := List.getLast?_eq_some_iff.mp last
    have reached : a ≤ now := Nat.le_trans (h.past a (List.mem_of_getLast? last)) later
    -- a span is cut off at the longest duration, which no interval exceeds
    have span : (Instant.since now a).nanos = min (now - a) Duration.maxNanos := rfl
    have short := interval.nanos_le_max
    have ordered := h.ordered
    rw [whole, List.pairwise_append] at ordered
    simp only [decide_eq_true_eq]
    rw [span]
    constructor
    · intro old x hx
      rw [whole, List.mem_append, List.mem_singleton] at hx
      rcases hx with hx | rfl
      · have before := ordered.2.2 x hx a (List.mem_singleton_self a)
        omega
      · omega
    · intro old
      have oldest := old a (List.mem_of_getLast? last)
      omega

private theorem lastUpdate_mono (nodup : (tiers.map Tier.name).Nodup) {happened : List (Nat × Act)}
    (run : Happened (ofTiers tiers clock) happened b) (ht : t ∈ tiers) {b' : Board}
    (further : b.Leads b') {last : Nat} (updated : (b.stateOf t.name).lastUpdate = some last) :
    ∃ last', (b'.stateOf t.name).lastUpdate = some last' ∧ last ≤ last' := by
  have sound := leads_sound (ofTiers_sound tiers clock) nodup run.leads
  induction further with
  | refl => exact ⟨last, updated, Nat.le_refl last⟩
  | tail further step ih =>
    obtain ⟨last', updated', kept⟩ := ih
    cases step with
    | @act now a later _ =>
      rw [stateOf_after (leads_sound sound nodup further) nodup ht, next_lastUpdate, updated']
      split
      · exact ⟨max last' now, rfl, Nat.le_trans kept (Nat.le_max_left _ _)⟩
      · exact ⟨last', rfl, kept⟩

end Pace

/-- Whatever happens on a board of an accepted list of tiers, for every tier: the last update is the
time of the latest success, of which there may be none, and successes come in order of time; a success
of the tier, whichever of its refreshes it ends, moves the last update to the time of the success, and
nothing else touches it; the last update never moves back or gets lost; and a tick claims the tier
exactly if it is idle after the look of the watchdog and every success so far lies at least one
interval back. -/
theorem refreshes_paced {tiers : List Tier} (accepted : Tier.validate tiers = none) {clock : Nat}
    {happened : List (Nat × Act)} {b : Board}
    (run : Happened (ofTiers tiers clock) happened b) :
    ∀ t ∈ tiers,
      ((b.stateOf t.name).lastUpdate = (successes t.name happened).getLast? ∧
        (successes t.name happened).Pairwise (· ≤ ·)) ∧
      (∀ now a, b.clock ≤ now → b.Allows a →
        (∀ f, a = .ended f true → f.tier = t.name →
          ((b.after now a).stateOf t.name).lastUpdate = some now) ∧
        ((∀ f, a = .ended f true → f.tier ≠ t.name) →
          ((b.after now a).stateOf t.name).lastUpdate = (b.stateOf t.name).lastUpdate)) ∧
      (∀ b', b.Leads b' → ∀ last, (b.stateOf t.name).lastUpdate = some last →
        ∃ last', (b'.stateOf t.name).lastUpdate = some last' ∧ last ≤ last') ∧
      ∀ now, b.clock ≤ now →
        (t ∈ b.claimed now .check ↔
          ((b.schedule.watchdog now).2.stateOf t.name).isUpdating = false ∧
            ∀ success ∈ successes t.name happened, success + t.interval.nanos ≤ now) := by
  intro t ht
  have nodup := Tier.names_nodup_of_validate accepted
  have sound := leads_sound (ofTiers_sound tiers clock) nodup run.leads
  have paced := run.paced nodup ht
  refine ⟨⟨paced.latest, paced.ordered⟩, fun now a later _ => ⟨?_, ?_⟩, ?_, ?_⟩
  · rintro f rfl here
    rw [stateOf_after sound nodup ht, next_lastUpdate, successAt?, if_pos here]
    exact congrArg some (paced.latest_or later)
  · intro other
    have none_counts : successAt? t.name (now, a) = none := by
      refine Option.eq_none_iff_forall_ne_some.mpr fun time success => ?_
      obtain ⟨-, f, ended, here⟩ := successAt?_eq_some_iff.mp success
      exact other f ended here
    rw [stateOf_after sound nodup ht, next_lastUpdate, none_counts]
  · exact fun b' further last updated => lastUpdate_mono nodup run ht further updated
  · intro now later
    have tiers_eq := sound.tiers_eq
    have looked : (b.schedule.watchdog now).2.stateOf t.name =
        (b.stateOf t.name).relieved now t.stuckTimeout :=
      watchdog_stateOf (by rw [tiers_eq]; exact nodup) (by rw [tiers_eq]; exact ht) now
    have relieved : Paced b.clock ((b.stateOf t.name).relieved now t.stuckTimeout)
        (successes t.name happened) :=
      ⟨(Tier.State.relieved_lastUpdate _ _ _).trans paced.latest, paced.ordered, paced.past⟩
    rw [claimed_eq sound nodup, List.mem_filter, and_iff_right ht, looked]
    exact relieved.isDue_iff later t.interval

def lateSuccess : List (Nat × Act) :=
  [(0, .check), (601 * nanosPerSecond, .check),
    (700 * nanosPerSecond, .ended ⟨"top", 0⟩ true),
    (701 * nanosPerSecond, .ended ⟨"top", 601 * nanosPerSecond⟩ false)]

def succeededLate : Board := overtaken.after (700 * nanosPerSecond) (.ended ⟨"top", 0⟩ true)

def failedAnew : Board :=
  succeededLate.after (701 * nanosPerSecond) (.ended ⟨"top", 601 * nanosPerSecond⟩ false)

theorem refreshes_paced_late :
    Tier.validate [minuteTier] = none ∧
      Happened (ofTiers [minuteTier] 0) lateSuccess failedAnew ∧
      (failedAnew.stateOf "top").lastUpdate = some (700 * nanosPerSecond) ∧
      minuteTier ∉ failedAnew.claimed (760 * nanosPerSecond - 1) .check ∧
      minuteTier ∈ failedAnew.claimed (760 * nanosPerSecond) .check := by
  have accepted : Tier.validate [minuteTier] = none := by decide +kernel
  have claimed : Happened (ofTiers [minuteTier] 0) [(0, .check)]
      ((ofTiers [minuteTier] 0).after 0 .check) :=
    Happened.nothing.act (a := .check) (Nat.le_refl 0) trivial
  have again : Happened (ofTiers [minuteTier] 0)
      [(0, .check), (601 * nanosPerSecond, .check)] overtaken :=
    claimed.act (a := .check) (Nat.zero_le _) trivial
  have older : (⟨"top", 0⟩ : Flight) ∈ overtaken.flights := by decide
  have newer : (⟨"top", 601 * nanosPerSecond⟩ : Flight) ∈ succeededLate.flights := by decide
  have late : Happened (ofTiers [minuteTier] 0) _ succeededLate :=
    again.act (a := .ended _ true) (by decide) older
  have run : Happened (ofTiers [minuteTier] 0) lateSuccess failedAnew :=
    late.act (a := .ended _ false) (by decide) newer
  obtain ⟨⟨latest, -⟩, -, -, claims⟩ := refreshes_paced accepted run minuteTier List.mem_cons_self
  have times : successes minuteTier.name lateSuccess = [700 * nanosPerSecond] := by decide
  rw [times] at latest claims
  refine ⟨accepted, run, latest, ?_, ?_⟩
  · intro claimed
    have old := ((claims _ (by decide)).mp claimed).2 _ List.mem_cons_self
    exact absurd old (by decide)
  · refine (claims _ (by decide)).mpr ⟨by decide, fun success member => ?_⟩
    rw [List.mem_singleton.mp member]
    decide

end Schedule.Board

end MarketFeed
