import MarketFeed.Proofs.Exchange.Outcomes
import MarketFeed.Proofs.KeyRing.Outcomes
/-!
On whom a cancellation is blamed. A failure that has a cancellation within is one for good, however many
rotations and chunks it has gone through, unless retries were exhausted on the way. So a use that fails with
it ends the rotation and leaves no mark; behind exhausted retries it benches the credential like any other
failure. No exchange fails with a cancellation behind exhausted retries.
-/

set_option autoImplicit false
set_option relaxedAutoImplicit false

namespace MarketFeed

open Program Simulation

namespace FetchError

/-- Whether a failure is that retries are exhausted, or has it within rotations and chunks. -/
def isSpent : FetchError → Bool
  | .retriesExhausted _ _ => true
  | .credentialsExhausted _ e | .chunkFailed _ _ _ e => e.isSpent
  | _ => false

/-- A cancellation within a failure is one for good exactly if no retries are exhausted around it. -/
theorem retryClass_of_isCancelled {e : FetchError} (cancelled : e.isCancelled = true) :
    e.retryClass = if e.isSpent then .nextCredential else .never := by
  induction e with
  | cancelled | retriesExhausted => rfl
  | credentialsExhausted _ e ih | chunkFailed _ _ _ e ih =>
    have within_ := ih cancelled
    rw [retryClass, isSpent, within_]
    cases e.isSpent <;> rfl
  | _ => cases cancelled

end FetchError

theorem Exchange.Broken.eq_cancelled {e : FetchError} (broken : Exchange.Broken e)
    (cancelled : e.isCancelled = true) : e = .cancelled := by
  rcases broken with final | ⟨attempts, last, rfl, passing⟩
  · cases e with
    | cancelled => rfl
    | status | bodyRead => cases cancelled
    | _ => exact final.elim
  · cases last with
    | transport | status => cases cancelled
    | _ => exact passing.elim

namespace KeyRing

variable {R α : Type}

/-! ### What follows a failure -/

theorem append_eq_of_quiet {log rest before after : List (Spanned (sessions α))}
    {call : Spanned (sessions α)} (quiet : ∀ e ∈ log, Quiet e.exchanged)
    (loud : ¬ Quiet call.exchanged) (split : log ++ rest = before ++ call :: after) :
    ∃ between, before = log ++ between ∧ rest = between ++ call :: after := by
  rcases List.append_eq_append_iff.mp split with ⟨between, rfl, same⟩ | ⟨between, same, rest_⟩
  · exact ⟨between, rfl, same⟩
  · cases between with
    | nil => exact ⟨[], by simpa using same.symm, by simpa using rest_.symm⟩
    | cons e between =>
      obtain ⟨rfl, -⟩ := List.cons.inj rest_
      exact absurd (quiet call (same ▸ by simp)) loud

theorem Rotates.after_failure {policy : RateLimit.Policy} {keys : List Credential} {now later : Instant}
    {k k' : KeyRing R} {log before after : List (Spanned (sessions α))} {call : Spanned (sessions α)}
    {r : Except FetchError α} {key : Credential} {e : FetchError}
    (rotates : Rotates policy keys now k log r later k') (split : log = before ++ call :: after)
    (failed : call.exchanged = ⟨.inr (.inr (.call key)), .error e⟩) :
    if e.retryClass = .never then after = [] ∧ r = .error e
    else ∃ marked rest, after = blamed marked key.secret :: rest := by
  have loud : ¬ Quiet call.exchanged := by
    rw [failed]
    exact id
  induction rotates generalizing before with
  | exhausted => cases before <;> cases split
  | cancelled quiet => exact absurd (quiet call (split ▸ by simp)) loud
  | skipped _ opened _ ih =>
    obtain ⟨between, -, same⟩ := append_eq_of_quiet opened.quiet loud split
    exact ih same
  | failed opened lasting _ _ _ _ ih =>
    obtain ⟨between, -, same⟩ := append_eq_of_quiet opened.quiet loud split
    rcases between with _ | ⟨first, _ | ⟨second, between⟩⟩
    · obtain ⟨rfl, rfl⟩ := List.cons.inj same
      cases failed
      rw [if_neg lasting]
      exact ⟨_, _, rfl⟩
    · obtain ⟨-, same⟩ := List.cons.inj same
      obtain ⟨rfl, -⟩ := List.cons.inj same
      cases failed
    · obtain ⟨-, same⟩ := List.cons.inj same
      exact ih (List.cons.inj same).2
  | gaveUp opened never _ _ =>
    obtain ⟨between, -, same⟩ := append_eq_of_quiet opened.quiet loud split
    rcases between with _ | ⟨first, between⟩
    · obtain ⟨rfl, rfl⟩ := List.cons.inj same
      cases failed
      rw [if_pos never]
      exact ⟨rfl, rfl⟩
    · cases between <;> cases (List.cons.inj same).2
  | succeeded opened _ _ _ =>
    obtain ⟨between, -, same⟩ := append_eq_of_quiet opened.quiet loud split
    rcases between with _ | ⟨first, _ | ⟨second, between⟩⟩
    · obtain ⟨rfl, -⟩ := List.cons.inj same
      cases failed
    · obtain ⟨rfl, -⟩ := List.cons.inj (List.cons.inj same).2
      cases failed
    · cases between <;> cases (List.cons.inj (List.cons.inj same).2).2

/-! ### What is left of the cooldown -/

/-- The cooldown after an exchange of a rotation: a mark changes it, and nothing else does. -/
def withMark (c : Cooldown) : Spanned (rotation α) → Cooldown
  | ⟨_, answered, ⟨.inl (.markFailed secret), _⟩⟩ => c.recordFailure answered secret
  | ⟨_, _, ⟨.inl (.markSucceeded secret), _⟩⟩ => c.recordSuccess secret
  | _ => c

variable [Quantity R] {now later : Instant} {k k' : KeyRing R}

theorem cooldown_of_served {op : (rotation α).Op} {a : (rotation α).Answer op}
    (served : rotating R α op now k a later k') :
    k'.cooldown = withMark k.cooldown ⟨now, later, ⟨op, a⟩⟩ := by
  match op, a, served with
  | .inl .isCancelled, _, served => rw [(served_isCancelled served).2]; rfl
  | .inl (.acquire _), _, served =>
    obtain ⟨-, l, rfl⟩ := served_acquire served
    rfl
  | .inl (.tryAcquire _), _, served => rw [(served_tryAcquire served).2.2]; rfl
  | .inl (.markFailed _), _, served =>
    obtain ⟨rfl, rfl⟩ := served_markFailed served
    rfl
  | .inl (.markSucceeded _), _, served => rw [(served_markSucceeded served).2]; rfl
  | .inr (.call _), _, served => rw [served.2]; rfl

theorem cooldown_of_elapses {β : Type} {p : Program (rotation α) β} {log : List (Spanned (rotation α))}
    {b : β} (elapses : p.Elapses (rotating R α) now k log b later k') :
    k'.cooldown = log.foldl withMark k.cooldown := by
  refine elapses.keeps (I := fun _ (k : KeyRing R) c => k.cooldown = c) ?_ ?_ rfl
  · intro _ _ _ _ _ same
    exact same
  · intro op now k a later k' c served same
    rw [cooldown_of_served served, same]

theorem after_failure {policy : RateLimit.Policy} {keys : List Credential}
    {log before after : List (Spanned (rotation α))} {call : Spanned (rotation α)}
    {r : Except FetchError α} {key : Credential} {e : FetchError}
    (elapses : (rotate policy keys).Elapses (rotating R α) now k log r later k')
    (split : log = before ++ call :: after) (failed : call.exchanged = ⟨.inr (.call key), .error e⟩) :
    if e.retryClass = .never then
      after = [] ∧ r = .error e ∧ k'.cooldown = before.foldl withMark k.cooldown
    else ∃ mark rest, after = mark :: rest ∧ mark.exchanged = ⟨.inl (.markFailed key.secret), ()⟩ := by
  have cooldown := cooldown_of_elapses elapses
  have whole : log.map Spanned.inSecond =
      before.map .inSecond ++ call.inSecond :: after.map (.inSecond (S := ApiClient.selections)) := by
    rw [split, List.map_append, List.map_cons]
  obtain ⟨asked, answered, exchanged⟩ := call
  cases failed
  have follows := (rotates_of_rotate elapses).after_failure whole rfl
  by_cases never : e.retryClass = .never
  · rw [if_pos never] at follows ⊢
    obtain ⟨nothing, ended⟩ := follows
    rw [split, List.map_eq_nil_iff.mp nothing, List.foldl_append] at cooldown
    exact ⟨List.map_eq_nil_iff.mp nothing, ended, cooldown⟩
  · rw [if_neg never] at follows ⊢
    obtain ⟨marked, rest, same⟩ := follows
    cases after with
    | nil => cases same
    | cons mark after =>
      obtain ⟨asked, answered, op, a⟩ := mark
      cases (List.cons.inj same).1
      exact ⟨_, _, rfl, rfl⟩

/-- **On whom a cancellation is blamed.** A failure with a cancellation within is one for good exactly if no
retries are exhausted around the cancellation. A use that fails with such a failure ends the rotation with
it, and no mark is made from then on; if retries are exhausted around the cancellation, its credential is
benched. An exchange fails with no cancellation but its own. -/
theorem cancellation_blamed_iff_spent :
    (∀ e : FetchError, e.isCancelled = true → (e.retryClass = .never ↔ e.isSpent = false)) ∧
    (∀ {policy keys now later} {k k' : KeyRing R} {log before after} {call : Spanned (rotation α)}
        {r : Except FetchError α} {key : Credential} {e : FetchError},
      (rotate policy keys).Elapses (rotating R α) now k log r later k' →
      log = before ++ call :: after → call.exchanged = ⟨.inr (.call key), .error e⟩ →
      e.isCancelled = true →
        (e.isSpent = false →
          after = [] ∧ r = .error e ∧ k'.cooldown = before.foldl withMark k.cooldown) ∧
        (e.isSpent = true → ∃ mark rest, after = mark :: rest ∧
          mark.exchanged = ⟨.inl (.markFailed key.secret), ()⟩)) ∧
    ∀ {config label url history e}, Runs (Exchange.perform config label url) history (.error e) →
      e.isCancelled = true → e = .cancelled := by
  have never_iff (e : FetchError) (cancelled : e.isCancelled = true) :
      e.retryClass = .never ↔ e.isSpent = false := by
    rw [FetchError.retryClass_of_isCancelled cancelled]
    cases e.isSpent <;> decide
  refine ⟨never_iff, ?_, ?_⟩
  · intro policy keys now later k k' log before after call r key e elapses split failed cancelled
    have follows := after_failure elapses split failed
    refine ⟨fun unspent => ?_, fun spent => ?_⟩
    · rwa [if_pos ((never_iff e cancelled).mpr unspent)] at follows
    · rwa [if_neg fun never => Bool.false_ne_true (((never_iff e cancelled).mp never).symm.trans spent)]
        at follows
  · intro config label url history e runs cancelled
    exact ((Exchange.broken_perform (h := []) config label url).runs runs e rfl).eq_cancelled cancelled

def spentCancellation : FetchError := .retriesExhausted 1 .cancelled

def passedCancellation : FetchError := .chunkFailed 1 3 250 .cancelled

def spentRotation : Program (rotation Nat) (Except FetchError Nat) :=
  rotate .wait [⟨"p", .paid⟩, ⟨"d", .demo⟩]

def spentRun : List (Spanned (rotation Nat)) × Except FetchError Nat × Instant × KeyRing Rat :=
  spentRotation.enact rotatingBy [.error spentCancellation, .error passedCancellation] 5 scarce

theorem cancellation_blamed_iff_spent_run :
    spentCancellation.isCancelled = true ∧ spentCancellation.isSpent = true ∧
    passedCancellation.isCancelled = true ∧ passedCancellation.isSpent = false ∧
    (∃ mark rest, spentRun.1.drop 3 = mark :: rest ∧
      mark.exchanged = ⟨.inl (.markFailed "p"), ()⟩) ∧
    spentRun.2.1 = .error passedCancellation ∧
    spentRun.2.2.2.cooldown = (spentRun.1.take 6).foldl withMark scarce.cooldown := by
  have elapses := elapses_enact rotating_rotatingBy spentRotation
    [.error spentCancellation, .error passedCancellation] 5 scarce
  obtain ⟨-, rotations, -⟩ := cancellation_blamed_iff_spent (R := Rat) (α := Nat)
  have first : spentRun.1 = spentRun.1.take 2 ++
      ⟨5, 5, ⟨.inr (.call ⟨"p", .paid⟩), .error spentCancellation⟩⟩ :: spentRun.1.drop 3 := by
    with_unfolding_all rfl
  have last : spentRun.1 = spentRun.1.take 6 ++
      ⟨5, 5, ⟨.inr (.call ⟨"d", .demo⟩), .error passedCancellation⟩⟩ :: [] := by
    with_unfolding_all rfl
  exact ⟨rfl, rfl, rfl, rfl, (rotations elapses first rfl rfl).2 rfl,
    ((rotations elapses last rfl rfl).1 rfl).2⟩

/-- A cancellation can be blamed on a credential, and does not always end a rotation. -/
theorem cancellation_blamed_spent :
    spentCancellation.isCancelled = true ∧ spentCancellation.retryClass = .nextCredential ∧
    spentRotation.Elapses (rotating Rat Nat) 5 scarce spentRun.1 spentRun.2.1 spentRun.2.2.1 spentRun.2.2.2 ∧
    spentRun.2.1 ≠ .error spentCancellation ∧
    spentRun.2.2.2.cooldown.failures.entries = [("p", 5)] :=
  ⟨rfl, rfl, elapses_enact rotating_rotatingBy spentRotation _ 5 scarce, by decide +kernel, by decide +kernel⟩

end KeyRing

end MarketFeed
