import MarketFeed.KeyRing
import MarketFeed.Table.Lemmas
/-!
What a cooldown forgets. A record is dropped when its secret is asked for after its window has passed; then
it says no more than no record does, so no answer at that time or later depends on it.
-/

set_option autoImplicit false
set_option relaxedAutoImplicit false

namespace MarketFeed

theorem Instant.le_since_iff (d : Duration) (now m : Instant) :
    d.nanos ≤ (Instant.since now m).nanos ↔ d.nanos ≤ now - m := by
  have := d.nanos_le_max
  unfold Instant.since
  rw [Duration.nanos_ofNanos]
  omega

namespace Cooldown

/-- The record of a failure whose window has passed at some time. -/
def Stale (c : Cooldown) (now : Instant) (secret : String) : Prop :=
  ∃ m, c.failures.get? secret = some m ∧ c.window.nanos ≤ now - m

/-- Some records are forgotten whose windows have passed. -/
structure Forgets (now : Instant) (c c' : Cooldown) : Prop where
  window : c'.window = c.window
  failures : ∀ secret, c'.failures.get? secret = c.failures.get? secret ∨
    c'.failures.get? secret = none ∧ c.Stale now secret

variable {c c' c'' : Cooldown} {now : Instant}

theorem Forgets.refl (c : Cooldown) : Forgets now c c := ⟨rfl, fun _ => .inl rfl⟩

theorem Forgets.trans (first : Forgets now c c') (second : Forgets now c' c'') :
    Forgets now c c'' := by
  refine ⟨second.window.trans first.window, fun secret => ?_⟩
  rcases second.failures secret with same | ⟨gone, m, known, passed⟩
  · rw [same]
    exact first.failures secret
  · rcases first.failures secret with same | ⟨absent, -⟩
    · refine .inr ⟨gone, m, ?_, ?_⟩
      · rw [← same]
        exact known
      · rw [← first.window]
        exact passed
    · rw [absent] at known
      cases known

theorem Forgets.mono {later : Instant} (forgets : Forgets now c c') (le : now ≤ later) :
    Forgets later c c' := by
  refine ⟨forgets.window, fun secret => (forgets.failures secret).imp_right ?_⟩
  rintro ⟨gone, m, known, passed⟩
  exact ⟨gone, m, known, Nat.le_trans passed (Nat.sub_le_sub_right le m)⟩

theorem available_iff (c : Cooldown) (now : Instant) (secret : String) :
    (c.isAvailable now secret).1 = true ↔
      c.failures.get? secret = none ∨ c.Stale now secret := by
  unfold isAvailable Stale
  cases known : c.failures.get? secret with
  | none => simp
  | some m =>
    simp only [Instant.le_since_iff]
    split <;> simp_all

theorem remaining_eq_none_iff (c : Cooldown) (now : Instant) (secret : String) :
    c.remaining now secret = none ↔ c.failures.get? secret = none ∨ c.Stale now secret := by
  unfold remaining Stale
  cases known : c.failures.get? secret with
  | none => simp
  | some m =>
    simp only [Instant.le_since_iff]
    split <;> simp_all

theorem remaining_eq_some_iff (c : Cooldown) (now : Instant) (secret : String) (left : Duration) :
    c.remaining now secret = some left ↔ ∃ m, c.failures.get? secret = some m ∧
      0 < left.nanos ∧ left.nanos + (now - m) = c.window.nanos := by
  have longest := c.window.nanos_le_max
  unfold remaining
  cases known : c.failures.get? secret with
  | none => simp
  | some m =>
    simp only [Instant.le_since_iff, Option.some.injEq, exists_eq_left']
    split
    next passed =>
      refine iff_of_false nofun ?_
      omega
    next short =>
      have elapsed : (Instant.since now m).nanos = now - m := by
        rw [Instant.since, Duration.nanos_ofNanos]
        omega
      rw [elapsed, Option.some.injEq]
      constructor
      · rintro rfl
        rw [Duration.nanos_ofNanos]
        omega
      · rintro ⟨-, whole⟩
        refine Duration.ext_nanos ?_
        rw [Duration.nanos_ofNanos]
        omega

theorem forgets_isAvailable (c : Cooldown) (now : Instant) (secret : String) :
    Forgets now c (c.isAvailable now secret).2 := by
  unfold isAvailable
  cases known : c.failures.get? secret with
  | none => exact .refl c
  | some m =>
    dsimp only
    split
    · rename_i passed
      rw [Instant.le_since_iff] at passed
      refine ⟨rfl, fun other => ?_⟩
      by_cases same : other = secret
      · subst same
        refine .inr ⟨?_, m, known, passed⟩
        simp [recordSuccess, Table.get?_erase]
      · left
        simp [recordSuccess, Table.get?_erase, same]
    · exact .refl c

theorem Forgets.available (forgets : Forgets now c c') (secret : String) :
    (c'.isAvailable now secret).1 = (c.isAvailable now secret).1 := by
  rw [Bool.eq_iff_iff, available_iff, available_iff, Stale, Stale, forgets.window]
  rcases forgets.failures secret with same | ⟨gone, stale⟩
  · rw [same]
  · simp only [gone, true_or, true_iff]
    exact .inr stale

theorem Forgets.remaining (forgets : Forgets now c c') (secret : String) :
    c'.remaining now secret = c.remaining now secret := by
  refine Option.ext fun left => ?_
  rw [remaining_eq_some_iff, remaining_eq_some_iff, forgets.window]
  rcases forgets.failures secret with same | ⟨gone, m, known, passed⟩
  · rw [same]
  · refine iff_of_false ?_ ?_
    · rintro ⟨_, held, -⟩
      cases gone.symm.trans held
    · rintro ⟨_, held, some_left, whole⟩
      cases known.symm.trans held
      omega

theorem forgets_sift (now : Instant) (keys : List Credential) (c : Cooldown) :
    Forgets now c (KeyRing.sift now keys c).2 := by
  induction keys generalizing c with
  | nil => exact .refl c
  | cons key keys ih => exact (forgets_isAvailable c now key.secret).trans (ih _)

theorem fst_sift (now : Instant) (keys : List Credential) (c : Cooldown) :
    (KeyRing.sift now keys c).1 = keys.filter fun key => (c.isAvailable now key.secret).1 := by
  induction keys generalizing c with
  | nil => rfl
  | cons key keys ih =>
    have rest : ∀ key' : Credential, ((c.isAvailable now key.secret).2.isAvailable now key'.secret).1 =
        (c.isAvailable now key'.secret).1 :=
      fun key' => (forgets_isAvailable c now key.secret).available key'.secret
    simp only [KeyRing.sift, ih, rest, List.filter_cons]

end Cooldown

end MarketFeed
