import MarketFeed.Proofs.KeyRing.Benching
/-!
The turns of the credentials of one rotation. A credential whose use fails is benched and the next one has
its turn; whatever ends the rotation, those that failed are in cooldown then, unless a use with the same
secret succeeded.
-/

set_option autoImplicit false
set_option relaxedAutoImplicit false

namespace MarketFeed

open Program Simulation

namespace KeyRing

variable {R α : Type}

/-! ### The turns of credentials -/

/-- What became of a credential that did not end the rotation. -/
inductive Fate where
  | skipped
  | failed (e : FetchError)

def Fate.exchanges (policy : RateLimit.Policy) (key : Credential) : Fate → List (Exchanged (sessions α))
  | .skipped => opening policy key.kind false
  | .failed e =>
    opening policy key.kind true ++
      [⟨.inr (.inr (.call key)), .error e⟩, ⟨.inr (.inl (.markFailed key.secret)), ()⟩]

/-- How a rotation ends that has come to the credentials that are left. -/
inductive Ending (policy : RateLimit.Policy) :
    List Credential → List (Exchanged (sessions α)) → Except FetchError α → Prop where
  | exhausted {e : FetchError} (lasting : e.retryClass ≠ .never) : Ending policy [] [] (.error e)
  | cancelled {key : Credential} {keys : List Credential} {history : List (Exchanged (sessions α))}
      (quiet : ∀ e ∈ history, Quiet e) : Ending policy (key :: keys) history (.error .cancelled)
  | gaveUp {key : Credential} {keys : List Credential} {e : FetchError} (never : e.retryClass = .never) :
      Ending policy (key :: keys)
        (opening policy key.kind true ++ [⟨.inr (.inr (.call key)), .error e⟩]) (.error e)
  | succeeded {key : Credential} {keys : List Credential} {value : α} :
      Ending policy (key :: keys)
        (opening policy key.kind true ++
          [⟨.inr (.inr (.call key)), .ok value⟩, ⟨.inr (.inl (.markSucceeded key.secret)), ()⟩])
        (.ok value)

/-- Some credentials had their turns and the others were left, without a turn or with the last one. -/
structure Turned (policy : RateLimit.Policy) (passed : List (Credential × Fate)) (left : List Credential)
    (history : List (Exchanged (sessions α))) (r : Except FetchError α) : Prop where
  skips : ∀ p ∈ passed, p.2 = .skipped → policy = .skip
  lasting : ∀ p ∈ passed, ∀ e, p.2 = .failed e → e.retryClass ≠ .never
  history : ∃ ending, history = (passed.flatMap fun p => p.2.exchanges policy p.1) ++ ending ∧
    Ending policy left ending r

/-- A failure of the secret between two points in time is on record, and the secret may not be used until
the window after it has passed. -/
def InCooldown (window : Duration) (since now : Instant) (k : KeyRing R) (secret : String) : Prop :=
  ∃ m, since ≤ m ∧ m ≤ now ∧ k.cooldown.failures.get? secret = some m ∧
    ∀ t, m ≤ t → ((k.cooldown.isAvailable t secret).1 = true ↔ m + window.nanos ≤ t)

section Turns

variable {policy : RateLimit.Policy} {keys left : List Credential} {passed : List (Credential × Fate)}
  {history : List (Exchanged (sessions α))} {r : Except FetchError α} {key : Credential}

theorem Ending.turned (ending : Ending policy left history r) : Turned policy [] left history r :=
  ⟨nofun, nofun, history, rfl, ending⟩

theorem Turned.skip (turned : Turned policy passed left history r) (skips : policy = .skip) :
    Turned policy ((key, .skipped) :: passed) left (opening policy key.kind false ++ history) r := by
  obtain ⟨ending, whole, ends⟩ := turned.history
  refine ⟨List.forall_mem_cons.mpr ⟨fun _ => skips, turned.skips⟩,
    List.forall_mem_cons.mpr ⟨nofun, turned.lasting⟩, ending, ?_, ends⟩
  rw [whole, List.flatMap_cons, List.append_assoc]
  rfl

theorem Turned.fail {e : FetchError} (turned : Turned policy passed left history r)
    (lasting : e.retryClass ≠ .never) :
    Turned policy ((key, .failed e) :: passed) left
      ((Fate.failed e).exchanges policy key ++ history) r := by
  obtain ⟨ending, whole, ends⟩ := turned.history
  refine ⟨List.forall_mem_cons.mpr ⟨nofun, turned.skips⟩,
    List.forall_mem_cons.mpr ⟨?_, turned.lasting⟩, ending, ?_, ends⟩
  · rintro _ ⟨⟩
    exact lasting
  · rw [whole, List.flatMap_cons, List.append_assoc]

theorem Turned.mem {e : FetchError} (turned : Turned policy passed left history r)
    (failed : (key, Fate.failed e) ∈ passed) :
    (⟨.inr (.inr (.call key)), .error e⟩ : Exchanged (sessions α)) ∈ history := by
  obtain ⟨ending, rfl, -⟩ := turned.history
  refine List.mem_append_left _ (List.mem_flatMap.mpr ⟨_, failed, ?_⟩)
  exact List.mem_append_right _ List.mem_cons_self

end Turns

/-! ### The cooldown of failures -/

section Cooldown

variable {window : Duration} {since now later : Instant} {k k' : KeyRing R} {secret : String}

theorem inCooldown_of_get? {m : Instant} (measured : k.cooldown.window = window) (after : since ≤ m)
    (before : m ≤ now) (known : k.cooldown.failures.get? secret = some m) :
    InCooldown window since now k secret := by
  refine ⟨m, after, before, known, fun t le => ?_⟩
  rw [Cooldown.available_iff, Cooldown.Stale, measured, known]
  simp only [Option.some.injEq, exists_eq_left', reduceCtorEq, false_or]
  rw [Nat.le_sub_iff_add_le le, Nat.add_comm]

theorem InCooldown.alike (known : InCooldown window since now k secret)
    (le : now ≤ later) (alike : Alike k k') : InCooldown window since later k' secret := by
  obtain ⟨l, rfl⟩ := alike
  obtain ⟨m, after, before, recorded⟩ := known
  exact ⟨m, after, Nat.le_trans before le, recorded⟩

theorem InCooldown.begin {earlier : Instant} (known : InCooldown window since now k secret)
    (le : earlier ≤ since) : InCooldown window earlier now k secret := by
  obtain ⟨m, after, recorded⟩ := known
  exact ⟨m, Nat.le_trans le after, recorded⟩

theorem InCooldown.markFailed (known : InCooldown window since now k secret)
    (measured : k.cooldown.window = window) (le : now ≤ later) (other : String) :
    InCooldown window since later (k.markFailed later other) secret := by
  obtain ⟨m, after, before, recorded, -⟩ := known
  have now_recorded : (k.markFailed later other).cooldown.failures.get? secret =
      if secret = other then some later else k.cooldown.failures.get? secret := Table.get?_insert ..
  by_cases same : secret = other
  · rw [if_pos same] at now_recorded
    exact inCooldown_of_get? measured (Nat.le_trans after (Nat.le_trans before le)) (Nat.le_refl _)
      now_recorded
  · rw [if_neg same, recorded] at now_recorded
    exact inCooldown_of_get? measured after (Nat.le_trans before le) now_recorded

theorem inCooldown_markFailed (le : since ≤ now) (k : KeyRing R) (secret : String) :
    InCooldown k.cooldown.window since now (k.markFailed now secret) secret := by
  refine inCooldown_of_get? rfl le (Nat.le_refl now) ?_
  exact (Table.get?_insert ..).trans (if_pos rfl)

variable {policy : RateLimit.Policy} {keys : List Credential} {log : List (Spanned (sessions α))}
  {r : Except FetchError α}

theorem Rotates.inCooldown (rotates : Rotates policy keys now k log r later k')
    (measured : k.cooldown.window = window) (known : InCooldown window since now k secret) :
    InCooldown window since later k' secret ∨
      (∃ value, r = .ok value) ∧ cleared later secret ∈ log := by
  induction rotates with
  | exhausted => exact .inl known
  | cancelled _ le alike => exact .inl (known.alike le alike)
  | skipped _ opened _ ih =>
    have waited := known.alike opened.le opened.alike
    obtain ⟨l, rfl⟩ := opened.alike
    exact (ih measured waited).imp_right fun ⟨ok, freed⟩ => ⟨ok, List.mem_append_right _ freed⟩
  | @failed key _ _ _ _ _ _ _ _ _ _ _ _ _ _ opened _ asks answers marks _ ih =>
    have waited := known.alike opened.le opened.alike
    obtain ⟨l, rfl⟩ := opened.alike
    have le := Nat.le_trans asks (Nat.le_trans answers marks)
    refine (ih measured (waited.markFailed measured le key.secret)).imp_right fun ⟨ok, freed⟩ => ⟨ok, ?_⟩
    exact List.mem_append_right _ (List.mem_cons_of_mem _ (List.mem_cons_of_mem _ freed))
  | gaveUp opened _ asks answers =>
    have le := Nat.le_trans opened.le (Nat.le_trans asks answers)
    exact .inl (known.alike le opened.alike)
  | @succeeded key _ _ _ _ _ marked _ _ _ value opened asks answers marks =>
    have le := Nat.le_trans opened.le (Nat.le_trans asks (Nat.le_trans answers marks))
    obtain ⟨l, rfl⟩ := opened.alike
    by_cases same : secret = key.secret
    · subst same
      exact .inr ⟨⟨value, rfl⟩, by simp⟩
    · obtain ⟨m, after, before, recorded, -⟩ := known
      refine .inl (inCooldown_of_get? measured after (Nat.le_trans before le) ?_)
      exact (Table.get?_erase ..).trans ((if_neg same).trans recorded)

/-- Every rotation goes through its credentials in their order. Those whose uses failed are in cooldown at
its end if no use with their secret succeeded; of the one whose use succeeded no failure is on record. -/
theorem Rotates.turned (rotates : Rotates policy keys now k log r later k') :
    ∃ passed left, keys = passed.map Prod.fst ++ left ∧
      Turned policy passed left (log.map Spanned.exchanged) r ∧
      (∀ p ∈ passed, p.2 = .skipped ∨ InCooldown k.cooldown.window now later k' p.1.secret ∨
        (∃ value, r = .ok value) ∧ cleared later p.1.secret ∈ log) ∧
      ∀ value, r = .ok value →
        ∃ key rest, left = key :: rest ∧ k'.cooldown.failures.get? key.secret = none := by
  induction rotates with
  | exhausted lasting => exact ⟨[], [], rfl, (Ending.exhausted lasting).turned, nofun, nofun⟩
  | @cancelled key keys _ _ _ _ log quiet =>
    have ending : Ending (α := α) policy (key :: keys) (log.map Spanned.exchanged) (.error .cancelled) := by
      refine .cancelled fun e member => ?_
      obtain ⟨spanned, logged, rfl⟩ := List.mem_map.mp member
      exact quiet spanned logged
    exact ⟨[], _, rfl, ending.turned, nofun, nofun⟩
  | @skipped key _ _ _ _ _ _ _ _ _ _ skips opened _ ih =>
    obtain ⟨l, rfl⟩ := opened.alike
    obtain ⟨passed, left, rfl, turned, benched, freed⟩ := ih
    refine ⟨(key, .skipped) :: passed, left, rfl, ?_,
      List.forall_mem_cons.mpr ⟨.inl rfl, fun p member => ?_⟩, freed⟩
    · rw [List.map_append, opened.exchanged]
      exact turned.skip skips
    · refine (benched p member).imp_right (Or.imp ?_ ?_)
      · exact fun known => known.begin opened.le
      · exact fun ⟨ok, mark⟩ => ⟨ok, List.mem_append_right _ mark⟩
  | @failed key _ _ _ _ _ marked _ _ _ _ _ rest e result opened lasting asks answers marks onward ih =>
    have le := Nat.le_trans opened.le (Nat.le_trans asks (Nat.le_trans answers marks))
    obtain ⟨l, rfl⟩ := opened.alike
    obtain ⟨passed, left, rfl, turned, benched, freed⟩ := ih
    refine ⟨(key, .failed e) :: passed, left, rfl, ?_,
      List.forall_mem_cons.mpr ⟨.inr ?_, fun p member => ?_⟩, freed⟩
    · rw [List.map_append, opened.exchanged]
      have here : Turned policy ((key, .failed e) :: passed) left
          ((Fate.failed e).exchanges policy key ++ rest.map Spanned.exchanged) result :=
        turned.fail lasting
      rw [Fate.exchanges, List.append_assoc] at here
      exact here
    · refine (onward.inCooldown rfl (inCooldown_markFailed le _ key.secret)).imp_right ?_
      exact fun ⟨ok, mark⟩ => ⟨ok, by simp [mark]⟩
    · refine (benched p member).imp_right (Or.imp ?_ ?_)
      · exact fun known => known.begin le
      · exact fun ⟨ok, mark⟩ => ⟨ok, by simp [mark]⟩
  | @gaveUp key keys _ _ _ _ _ _ log e opened never =>
    refine ⟨[], key :: keys, rfl, ?_, nofun, nofun⟩
    rw [List.map_append, opened.exchanged]
    exact (Ending.gaveUp never).turned
  | @succeeded key keys _ _ _ _ _ _ _ log value opened =>
    refine ⟨[], key :: keys, rfl, ?_, nofun, fun _ _ => ⟨key, keys, rfl, ?_⟩⟩
    · rw [List.map_append, opened.exchanged]
      exact Ending.succeeded.turned
    · exact (Table.get?_erase ..).trans (if_pos rfl)

end Cooldown

end KeyRing

end MarketFeed
