import Mathlib.Data.List.Induction
import MarketFeed.Proofs.Cooldown.Forgetting
/-!
What a cooldown answers about a secret after any uses. Beside the cooldown that drops a record when its
secret is asked for after the window stands one that drops none; both answer alike. What the second one has
on record for a secret is its last failure, unless it has succeeded since.
-/

set_option autoImplicit false
set_option relaxedAutoImplicit false

namespace MarketFeed.Cooldown

/-- What can be done with a cooldown: a failure or a success is recorded, or it is asked whether a secret
may be used or how long it may not. -/
inductive Use where
  | fail (secret : String)
  | succeed (secret : String)
  | ask (secret : String)
  | measure (secret : String)
  deriving DecidableEq

abbrev Uses := List (Instant × Use)

/-- A failure or a success of a secret is recorded. -/
def Use.Marks (secret : String) (u : Use) : Prop := u = .fail secret ∨ u = .succeed secret

instance (secret : String) : DecidablePred (Use.Marks secret) :=
  fun _ => inferInstanceAs (Decidable (_ ∨ _))

def Use.isMark : Use → Bool
  | .fail _ | .succeed _ => true
  | .ask _ | .measure _ => false

theorem Use.Marks.isMark {secret : String} {u : Use} (marks : u.Marks secret) : u.isMark = true := by
  rcases marks with rfl | rfl <;> rfl

def used (c : Cooldown) : Instant × Use → Cooldown
  | (now, .fail secret) => c.recordFailure now secret
  | (_, .succeed secret) => c.recordSuccess secret
  | (now, .ask secret) => (c.isAvailable now secret).2
  | (_, .measure _) => c

/-- A cooldown after one use if nothing is dropped when it is asked for. -/
def kept (c : Cooldown) : Instant × Use → Cooldown
  | (now, .fail secret) => c.recordFailure now secret
  | (_, .succeed secret) => c.recordSuccess secret
  | _ => c

def after (window : Duration) (uses : Uses) : Cooldown := uses.foldl used (fresh window)

def keeping (window : Duration) (uses : Uses) : Cooldown := uses.foldl kept (fresh window)

structure Until (now : Instant) (uses : Uses) : Prop where
  ordered : uses.Pairwise fun u w => u.1 ≤ w.1
  past : ∀ u ∈ uses, u.1 ≤ now

/-- The last failure of a secret was at `failed`, and it has not succeeded since. -/
def LastFailed (uses : Uses) (secret : String) (failed : Instant) : Prop :=
  ∃ before later, uses = before ++ (failed, .fail secret) :: later ∧
    ∀ u ∈ later, ¬ u.2.Marks secret

variable {window : Duration} {now : Instant} {uses : Uses} {secret : String}

/-! ### Dropping unseen -/

theorem Forgets.used {c c' : Cooldown} (forgets : Forgets now c c') (u : Use) :
    Forgets now (c.kept (now, u)) (c'.used (now, u)) := by
  have change (f : Table Instant → Table Instant) (key : String) (left : Option Instant)
      (got : ∀ (t : Table Instant) other, (f t).get? other = if other = key then left else t.get? other) :
      Forgets now { c with failures := f c.failures } { c' with failures := f c'.failures } := by
    refine ⟨forgets.window, fun other => ?_⟩
    simp only [Stale, got]
    split
    · exact .inl rfl
    · exact forgets.failures other
  cases u with
  | fail key => exact change (·.insert key now) key (some now) fun t other => Table.get?_insert ..
  | succeed key => exact change (·.erase key) key none fun t other => Table.get?_erase ..
  | ask key => exact forgets.trans (forgets_isAvailable c' now key)
  | measure key => exact forgets

theorem Until.concat {u : Instant × Use} (order : Until now (uses ++ [u])) :
    Until u.1 uses ∧ u.1 ≤ now := by
  obtain ⟨ordered, -, last⟩ := List.pairwise_append.mp order.ordered
  exact ⟨⟨ordered, fun w here => last w here u (List.mem_singleton_self u)⟩, order.past u (by simp)⟩

theorem Until.filter (order : Until now uses) {p : Instant × Use → Bool} : Until now (uses.filter p) :=
  ⟨order.ordered.filter p, fun u here => order.past u (List.mem_filter.mp here).1⟩

/-- After uses in order of time a cooldown lacks records only whose windows have passed. -/
theorem forgets_after (order : Until now uses) :
    Forgets now (keeping window uses) (after window uses) := by
  induction uses using List.reverseRecOn generalizing now with
  | nil => exact .refl _
  | append_singleton uses u ih =>
    obtain ⟨earlier, le⟩ := order.concat
    rw [keeping, after, List.foldl_append, List.foldl_append]
    exact ((ih earlier).used u.2).mono le

/-! ### What is on record -/

theorem window_keeping (window : Duration) (uses : Uses) : (keeping window uses).window = window := by
  have step (u : Instant × Use) (c : Cooldown) : (c.kept u).window = c.window := by
    rw [kept.eq_def]
    split <;> rfl
  induction uses using List.reverseRecOn with
  | nil => rfl
  | append_singleton uses u ih =>
    rw [keeping, List.foldl_append]
    exact (step u _).trans ih

theorem get?_kept_of_not_marks {u : Instant × Use} (other : ¬ u.2.Marks secret) (c : Cooldown) :
    (c.kept u).failures.get? secret = c.failures.get? secret := by
  obtain ⟨time, use⟩ := u
  cases use with
  | fail key =>
    have apart : secret ≠ key := fun same => other (.inl (by rw [same]))
    exact (Table.get?_insert ..).trans (if_neg apart)
  | succeed key =>
    have apart : secret ≠ key := fun same => other (.inr (by rw [same]))
    exact (Table.get?_erase ..).trans (if_neg apart)
  | ask key => rfl
  | measure key => rfl

theorem lastFailed_concat {u : Instant × Use} {failed : Instant} :
    LastFailed (uses ++ [u]) secret failed ↔
      u = (failed, .fail secret) ∨ ¬ u.2.Marks secret ∧ LastFailed uses secret failed := by
  constructor
  · rintro ⟨before, later, split, silent⟩
    rcases List.eq_nil_or_concat later with rfl | ⟨between, last, rfl⟩
    · exact .inl (List.append_singleton_inj.mp split).2
    · rw [List.concat_eq_append] at split silent
      have split' : uses ++ [u] = (before ++ (failed, .fail secret) :: between) ++ [last] := by
        rw [split, List.append_assoc, List.cons_append]
      obtain ⟨rfl, rfl⟩ := List.append_singleton_inj.mp split'
      exact .inr ⟨silent u (by simp), before, between, rfl,
        fun w here => silent w (List.mem_append_left _ here)⟩
  · rintro (rfl | ⟨silent, before, later, rfl, quiet⟩)
    · exact ⟨uses, [], rfl, nofun⟩
    · refine ⟨before, later ++ [u], by simp, fun w here => ?_⟩
      rcases List.mem_append.mp here with earlier | last
      · exact quiet w earlier
      · cases List.mem_singleton.mp last
        exact silent

/-- A cooldown that drops nothing has the last failure on record. -/
theorem get?_keeping {failed : Instant} :
    (keeping window uses).failures.get? secret = some failed ↔ LastFailed uses secret failed := by
  induction uses using List.reverseRecOn with
  | nil =>
    refine iff_of_false nofun ?_
    rintro ⟨before, later, split, -⟩
    cases before <;> cases split
  | append_singleton uses u ih =>
    rw [lastFailed_concat, show keeping window (uses ++ [u]) = (keeping window uses).kept u from
      List.foldl_append ..]
    obtain ⟨time, use⟩ := u
    by_cases marked : use.Marks secret
    · rcases marked with rfl | rfl
      · rw [kept, recordFailure, Table.get?_insert, if_pos rfl]
        simp [Use.Marks, eq_comm]
      · rw [kept, recordSuccess, Table.get?_erase, if_pos rfl]
        simp [Use.Marks]
    · rw [get?_kept_of_not_marks marked, ih]
      refine ⟨fun last => .inr ⟨marked, last⟩, ?_⟩
      rintro (same | last)
      · cases same
        exact absurd (.inl rfl) marked
      · exact last.2

theorem lastFailed_filter {failed : Instant} {p : Instant × Use → Bool}
    (keeps : ∀ u, u.2.Marks secret → p u = true) :
    LastFailed (uses.filter p) secret failed ↔ LastFailed uses secret failed := by
  induction uses using List.reverseRecOn with
  | nil => rfl
  | append_singleton uses u ih =>
    rw [List.filter_append, lastFailed_concat]
    by_cases marked : u.2.Marks secret
    · rw [List.filter_cons_of_pos (keeps u marked), List.filter_nil, lastFailed_concat]
      simp only [marked, not_true_eq_false, false_and]
    · have other : u ≠ (failed, .fail secret) := by
        rintro rfl
        exact marked (.inl rfl)
      cases kept : p u with
      | true => rw [List.filter_cons_of_pos kept, List.filter_nil, lastFailed_concat, ih]
      | false =>
        rw [List.filter_cons_of_neg (by simp [kept]), List.filter_nil, List.append_nil, ih]
        simp only [other, marked, not_false_eq_true, true_and, false_or]

theorem Until.le_of_lastFailed (order : Until now uses) {failed : Instant}
    (last : LastFailed uses secret failed) : failed ≤ now := by
  obtain ⟨before, later, rfl, -⟩ := last
  exact order.past (failed, .fail secret) (by simp)

theorem get?_keeping_congr {others : Uses}
    (alike : (others.filter fun u => u.2.Marks secret) = uses.filter fun u => u.2.Marks secret) :
    (keeping window others).failures.get? secret = (keeping window uses).failures.get? secret := by
  have keeps (u : Instant × Use) (marks : u.2.Marks secret) : decide (u.2.Marks secret) = true :=
    decide_eq_true marks
  refine Option.ext fun failed => ?_
  rw [get?_keeping, get?_keeping, ← lastFailed_filter keeps, alike, lastFailed_filter keeps]

theorem answers_congr {c c' : Cooldown} (windows : c.window = c'.window)
    (records : c.failures.get? secret = c'.failures.get? secret) :
    (c.isAvailable now secret).1 = (c'.isAvailable now secret).1 ∧
      c.remaining now secret = c'.remaining now secret := by
  constructor
  · rw [Bool.eq_iff_iff, available_iff, available_iff, Stale, Stale, records, windows]
  · rw [remaining, remaining, records, windows]

/-! ### Answers -/

theorem remaining_after_eq_none_iff (order : Until now uses) :
    (after window uses).remaining now secret = none ↔
      (∀ failed, ¬ LastFailed uses secret failed) ∨
        ∃ failed, LastFailed uses secret failed ∧ Instant.after failed window ≤ now := by
  rw [(forgets_after order).remaining, remaining_eq_none_iff, Stale, window_keeping,
    Option.eq_none_iff_forall_ne_some]
  simp only [Ne, get?_keeping]
  refine or_congr_right (exists_congr fun failed => and_congr_right fun last => ?_)
  have le := order.le_of_lastFailed last
  rw [Nat.le_sub_iff_add_le le, Nat.add_comm]
  rfl

theorem remaining_after_eq_some_iff (order : Until now uses) {left : Duration} :
    (after window uses).remaining now secret = some left ↔
      ∃ failed, LastFailed uses secret failed ∧ 0 < left.nanos ∧
        Instant.after now left = Instant.after failed window := by
  rw [(forgets_after order).remaining, remaining_eq_some_iff, window_keeping]
  simp only [get?_keeping]
  refine exists_congr fun failed => and_congr_right fun last => and_congr_right fun _ => ?_
  have le := order.le_of_lastFailed last
  have whole (f t l w : Nat) (le : f ≤ t) : l + (t - f) = w ↔ t + l = f + w := by omega
  exact whole failed now left.nanos window.nanos le

/-- **A cooldown tells the last failure.** After uses in order of time a secret may be used exactly if
nothing remains of its window, and that is so exactly if it has not failed since it last succeeded or the
window after its last failure has passed; otherwise the time to the end of that window remains. Neither
asking nor what is recorded of other secrets ever changes an answer. -/
theorem answers_tell_last_failure (order : Until now uses) (secret : String) :
    (((after window uses).isAvailable now secret).1 = true ↔
      (after window uses).remaining now secret = none) ∧
    ((after window uses).remaining now secret = none ↔
      (∀ failed, ¬ LastFailed uses secret failed) ∨
        ∃ failed, LastFailed uses secret failed ∧ Instant.after failed window ≤ now) ∧
    (∀ left, (after window uses).remaining now secret = some left ↔
      ∃ failed, LastFailed uses secret failed ∧ 0 < left.nanos ∧
        Instant.after now left = Instant.after failed window) ∧
    ∀ others, Until now others →
      (others.filter fun u => u.2.Marks secret) = uses.filter (fun u => u.2.Marks secret) →
      ((after window others).isAvailable now secret).1 = ((after window uses).isAvailable now secret).1 ∧
        (after window others).remaining now secret = (after window uses).remaining now secret := by
  refine ⟨?_, remaining_after_eq_none_iff order, fun left => remaining_after_eq_some_iff order,
    fun others order' alike => ?_⟩
  · rw [available_iff, remaining_eq_none_iff]
  · have forgets : Forgets now (keeping window uses) (after window uses) := forgets_after order
    have forgets' : Forgets now (keeping window others) (after window others) := forgets_after order'
    rw [forgets.available, forgets.remaining, forgets'.available, forgets'.remaining]
    refine answers_congr ?_ (get?_keeping_congr alike)
    rw [window_keeping, window_keeping]

def failedTwice : Uses :=
  [(0, .fail "paid"), (5 * nanosPerSecond, .ask "paid"), (10 * nanosPerSecond, .fail "paid"),
    (12 * nanosPerSecond, .fail "demo"), (13 * nanosPerSecond, .succeed "demo")]

theorem answers_tell_last_failure_twice :
    Until (35 * nanosPerSecond) failedTwice ∧
    (after (Duration.ofSeconds 30) failedTwice).remaining (35 * nanosPerSecond) "paid" =
      some (Duration.ofSeconds 5) ∧
    ((after (Duration.ofSeconds 30) failedTwice).isAvailable (40 * nanosPerSecond) "paid").1 = true := by
  have order (now : Instant) (le : 13 * nanosPerSecond ≤ now) : Until now failedTwice := by
    refine ⟨by decide, fun u here => Nat.le_trans ?_ le⟩
    revert u
    decide
  have last : LastFailed failedTwice "paid" (10 * nanosPerSecond) :=
    ⟨[_, _], [_, _], rfl, by decide⟩
  have before := order (35 * nanosPerSecond) (by decide)
  refine ⟨before, ?_, ?_⟩
  · obtain ⟨-, -, benched, -⟩ := answers_tell_last_failure before "paid"
    exact (benched _).mpr ⟨_, last, by decide, by decide⟩
  · obtain ⟨free, passed, -, -⟩ :=
      answers_tell_last_failure (order (40 * nanosPerSecond) (by decide)) "paid"
    exact free.mpr (passed.mpr (.inr ⟨_, last, by decide⟩))

end MarketFeed.Cooldown
