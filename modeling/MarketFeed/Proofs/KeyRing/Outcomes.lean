import Mathlib.Data.List.Induction
import MarketFeed.Proofs.KeyRing.Sessions
/-!
The outcome of a rotation that nobody cancels. It is told by the turns of its credentials: when a token
was asked for, whether the credential was used then and how that ended, and when the outcome was noted.
The turns determine what was asked, the marks that are left in the cooldown, and the result.
-/

set_option autoImplicit false
set_option relaxedAutoImplicit false

namespace MarketFeed

open Program Simulation

namespace KeyRing

variable {R α : Type}

inductive Mark where
  | failed
  | succeeded
  deriving DecidableEq

namespace Mark

/-- A success speaks for a secret, and a failure against it unless it is one for good. -/
def of? : Except FetchError α → Option Mark
  | .ok _ => some .succeeded
  | .error e => if e.retryClass = .never then none else some .failed

/-- The cooldown with one more mark: a failure is recorded as of now, and a success removes the record. -/
def apply (now : Instant) (secret : String) (c : Cooldown) : Mark → Cooldown
  | .failed => { c with failures := c.failures.insert secret now }
  | .succeeded => { c with failures := c.failures.erase secret }

end Mark

structure Usage (α : Type) where
  begun : Instant
  ended : Except FetchError α
  noted : Instant

/-- The turn of a credential: when a token of its kind was asked for, and its use unless it was passed
over. -/
structure Turn (α : Type) where
  key : Credential
  moment : Instant
  usage : Option (Usage α)

/-- What a rotation does to its surroundings. -/
inductive Doing (α : Type) where
  | token (kind : Credential.Kind)
  | call (key : Credential) (ended : Except FetchError α)
  | mark (secret : String) (m : Mark)

/-- What was done with a request, and when; asking whether the rotation is cancelled does nothing. -/
def doing? : Spanned (rotation α) → Option (Instant × Doing α)
  | ⟨_, _, ⟨.inl .isCancelled, _⟩⟩ => none
  | ⟨asked, _, ⟨.inl (.acquire kind), _⟩⟩ => some (asked, .token kind)
  | ⟨asked, _, ⟨.inl (.tryAcquire kind), _⟩⟩ => some (asked, .token kind)
  | ⟨asked, _, ⟨.inl (.markFailed secret), _⟩⟩ => some (asked, .mark secret .failed)
  | ⟨asked, _, ⟨.inl (.markSucceeded secret), _⟩⟩ => some (asked, .mark secret .succeeded)
  | ⟨asked, _, ⟨.inr (.call key), ended⟩⟩ => some (asked, .call key ended)

def tellsCancelled : Exchanged (rotation α) → Bool
  | ⟨.inl .isCancelled, true⟩ => true
  | ⟨.inl (.acquire _), Signal.cancelled⟩ => true
  | _ => false

/-- Nobody cancels a rotation with that log. -/
def Uncancelled (log : List (Spanned (rotation α))) : Prop :=
  ∀ e ∈ log, tellsCancelled e.exchanged = false

instance (log : List (Spanned (rotation α))) : Decidable (Uncancelled log) :=
  inferInstanceAs (Decidable (∀ e ∈ log, tellsCancelled e.exchanged = false))

namespace Turn

def doings (t : Turn α) : List (Instant × Doing α) :=
  (t.moment, .token t.key.kind) ::
    match t.usage with
    | none => []
    | some u => (u.begun, .call t.key u.ended) ::
        ((Mark.of? u.ended).map fun m => (u.noted, .mark t.key.secret m)).toList

def mark (c : Cooldown) (t : Turn α) : Cooldown :=
  match t.usage with
  | none => c
  | some u =>
    match Mark.of? u.ended with
    | none => c
    | some m => m.apply u.noted t.key.secret c

def call? (t : Turn α) : Option (Credential × Except FetchError α) :=
  t.usage.map fun u => (t.key, u.ended)

/-- After the turn another credential may have one: no use, or a failure that is not for good. -/
def Passed (t : Turn α) : Prop :=
  ∀ u, t.usage = some u → ∃ e, u.ended = .error e ∧ e.retryClass ≠ .never

def entry (t : Turn α) : Journal.Entry :=
  match t.usage with
  | none => .skipped t.key.masked
  | some ⟨_, .ok _, _⟩ => .succeeded t.key.masked
  | some ⟨_, .error e, _⟩ => .failed t.key.masked e.message

def failure (last : Option FetchError) (t : Turn α) : Option FetchError :=
  match t.usage with
  | some ⟨_, .error e, _⟩ => some e
  | _ => last

end Turn

def calls (turns : List (Turn α)) : List (Credential × Except FetchError α) :=
  turns.filterMap Turn.call?

/-- In each turn a token is taken from the limiter that the turns before have left; exactly where there is
none, the credential is not used. -/
def Paced [Quantity R] : Limiter R → List (Turn α) → Prop
  | _, [] => True
  | l, t :: turns =>
    (t.usage = none ↔ (l.take t.moment t.key.kind).1 = false) ∧
      Paced (l.take t.moment t.key.kind).2 turns

/-- Which credentials are used: all of them if tokens are waited for, otherwise those that got one. -/
def Admitted [Quantity R] (policy : RateLimit.Policy) (l : Limiter R) (turns : List (Turn α)) : Prop :=
  match policy with
  | .wait => ∀ t ∈ turns, t.usage ≠ none
  | .skip => Paced l turns

def unused (turns : List (Turn α)) : FetchError :=
  if turns.isEmpty then noneLeft
  else .noCredentials ("every credential was skipped: " ++
    (Journal.mk (turns.map fun t => .skipped t.key.masked)).summary)

/-- The result of a rotation: that of the last turn if this is a success or a failure for good; otherwise
every credential had its turn, and the last failure or the lack of one is told. -/
inductive Concludes : List (Turn α) → List Credential → Except FetchError α → Prop where
  | succeeded {early : List (Turn α)} {t : Turn α} {left : List Credential} {value : α}
      (passed : ∀ t ∈ early, t.Passed) (ok : t.call? = some (t.key, .ok value)) :
      Concludes (early ++ [t]) left (.ok value)
  | gaveUp {early : List (Turn α)} {t : Turn α} {left : List Credential} {e : FetchError}
      (passed : ∀ t ∈ early, t.Passed) (failed : t.call? = some (t.key, .error e))
      (never : e.retryClass = .never) : Concludes (early ++ [t]) left (.error e)
  | exhausted {turns : List (Turn α)} {key : Credential} {e : FetchError}
      (passed : ∀ t ∈ turns, t.Passed) (last : (calls turns).getLast? = some (key, .error e)) :
      Concludes turns [] (.error (.credentialsExhausted (calls turns).length e))
  | unused {turns : List (Turn α)} (passed : ∀ t ∈ turns, t.usage = none) :
      Concludes turns [] (.error (unused turns))

/-! ### Single requests -/

section Steps

variable {now later : Instant} {k k' : KeyRing R} {log : List (Spanned (rotation α))}

theorem Uncancelled.tail {e : Spanned (rotation α)} (uncancelled : Uncancelled (e :: log)) :
    Uncancelled log := fun e' member => uncancelled e' (List.mem_cons_of_mem e member)

theorem Uncancelled.head {e : Spanned (rotation α)} (uncancelled : Uncancelled (e :: log)) :
    tellsCancelled e.exchanged = false := uncancelled e List.mem_cons_self

variable [Quantity R] {policy : RateLimit.Policy}

/-- How a token was asked for that a policy lets a credential have, or go without. -/
structure Asked (policy : RateLimit.Policy) (kind : Credential.Kind) (moment : Instant) (granted : Bool)
    (k mid : KeyRing R) : Prop where
  cooldown : mid.cooldown = k.cooldown
  waits : policy = .wait → granted = true
  skips : policy = .skip → granted = (k.limiter.take moment kind).1 ∧
    mid.limiter = (k.limiter.take moment kind).2

private theorem elapses_admission {kind : Credential.Kind} {β : Type} {b : β}
    {f : Admission → Program (rotation α) β} (uncancelled : Uncancelled log)
    (elapses : ((grant policy kind).bind f).Elapses (rotating R α) now k log b later k') :
    ∃ e rest moment granted between mid, log = e :: rest ∧ doing? e = some (moment, .token kind) ∧
      Asked policy kind moment granted k mid ∧
      (f (if granted then .granted else .skipped)).Elapses (rotating R α) between mid rest b later k' := by
  cases policy with
  | wait =>
    obtain ⟨asked, answered, signal, mid, rest, rfl, passed, served, onward⟩ :=
      elapses_call_bind (S := rotation α) (.inl (.acquire kind)) elapses
    obtain ⟨-, l, rfl⟩ := served_acquire served
    cases signal with
    | elapsed =>
      have got : Asked .wait kind asked true k { k with limiter := l } := ⟨rfl, fun _ => rfl, nofun⟩
      exact ⟨_, rest, asked, true, answered, _, rfl, rfl, got, onward⟩
    | cancelled => exact absurd uncancelled.head (by simp [tellsCancelled])
  | skip =>
    obtain ⟨asked, answered, granted, mid, rest, rfl, passed, served, onward⟩ :=
      elapses_call_bind (S := rotation α) (.inl (.tryAcquire kind)) elapses
    obtain ⟨rfl, took, rfl⟩ := served_tryAcquire served
    have got : Asked .skip kind answered granted k { k with limiter := (k.limiter.take answered kind).2 } :=
      ⟨rfl, nofun, fun _ => ⟨took, rfl⟩⟩
    refine ⟨_, rest, answered, granted, answered, _, rfl, rfl, got, ?_⟩
    cases granted <;> exact onward

end Steps

/-! ### Whole rotations -/

/-- What is said of a rotation that goes on with some credentials after a journal was begun. -/
structure Told [Quantity R] (policy : RateLimit.Policy) (journal : Journal) (last : Option FetchError)
    (keys : List Credential) (k : KeyRing R) (log : List (Spanned (rotation α))) (r : Except FetchError α)
    (k' : KeyRing R) (turns : List (Turn α)) (left : List Credential) : Prop where
  keys : keys = turns.map Turn.key ++ left
  done : log.filterMap doing? = turns.flatMap Turn.doings
  admitted : Admitted policy k.limiter turns
  cooldown : k'.cooldown = turns.foldl Turn.mark k.cooldown
  ends : (∃ early t, turns = early ++ [t] ∧ (∀ t ∈ early, t.Passed) ∧ t.call? = some (t.key, r) ∧
      ∀ e, r = .error e → e.retryClass = .never) ∨
    left = [] ∧ (∀ t ∈ turns, t.Passed) ∧
      r = .error (exhausted ⟨journal.entries ++ turns.map Turn.entry⟩ (turns.foldl Turn.failure last))

section Told

variable [Quantity R] {policy : RateLimit.Policy} {journal : Journal} {last : Option FetchError}
  {keys left : List Credential} {k mid k' : KeyRing R} {log rest : List (Spanned (rotation α))}
  {r : Except FetchError α} {turns : List (Turn α)} {t : Turn α}

theorem Admitted.cons {granted : Bool} {l : Limiter R}
    (asked : Asked policy t.key.kind t.moment granted k mid) (same : l = mid.limiter)
    (used : t.usage = none ↔ granted = false) (admitted : Admitted policy l turns) :
    Admitted policy k.limiter (t :: turns) := by
  cases policy with
  | wait =>
    refine List.forall_mem_cons.mpr ⟨?_, admitted⟩
    rw [Ne, used, asked.waits rfl]
    exact Bool.noConfusion
  | skip =>
    obtain ⟨took, left⟩ := asked.skips rfl
    refine ⟨used.trans (by rw [took]), ?_⟩
    rw [← left, ← same]
    exact admitted

theorem Told.cons {granted : Bool} {after : KeyRing R}
    (told : Told policy (journal.record t.entry) (t.failure last) keys after rest r k' turns left)
    (passed : t.Passed) (asked : Asked policy t.key.kind t.moment granted k mid)
    (used : t.usage = none ↔ granted = false) (same : after.limiter = mid.limiter)
    (noted : after.cooldown = t.mark mid.cooldown)
    (done : log.filterMap doing? = t.doings ++ rest.filterMap doing?) :
    Told policy journal last (t.key :: keys) k log r k' (t :: turns) left := by
  refine ⟨?_, ?_, told.admitted.cons asked same used, ?_, ?_⟩
  · rw [told.keys]
    rfl
  · rw [done, told.done]
    rfl
  · rw [told.cooldown, noted, asked.cooldown]
    rfl
  · rcases told.ends with ⟨early, t', whole, before, ended⟩ | ⟨nothing, before, ended⟩
    · refine .inl ⟨t :: early, t', ?_, List.forall_mem_cons.mpr ⟨passed, before⟩, ended⟩
      rw [whole]
      rfl
    · refine .inr ⟨nothing, List.forall_mem_cons.mpr ⟨passed, before⟩, ?_⟩
      rw [ended, Journal.record, List.append_assoc]
      rfl

theorem told_of_last (asked : Asked policy t.key.kind t.moment true k mid) {u : Usage α}
    (used : t.usage = some u) (ended : u.ended = r) (final : ∀ e, r = .error e → e.retryClass = .never)
    (noted : k'.cooldown = t.mark mid.cooldown) (done : log.filterMap doing? = t.doings) :
    Told policy journal last (t.key :: keys) k log r k' [t] keys := by
  refine ⟨rfl, ?_, ?_, ?_, .inl ⟨[], t, rfl, nofun, ?_, final⟩⟩
  · rw [done, List.flatMap_singleton]
  · cases policy with
    | wait =>
      intro t' member
      rw [List.mem_singleton.mp member, used]
      exact nofun
    | skip =>
      refine ⟨?_, trivial⟩
      rw [used, ← (asked.skips rfl).1]
      exact ⟨nofun, nofun⟩
  · rw [noted, asked.cooldown]
    rfl
  · rw [Turn.call?, used, Option.map_some, ended]

private theorem told_of_used {key : Credential} {later moment between : Instant}
    (asked : Asked policy key.kind moment true k mid)
    (onward : ∀ {journal last now k rest}, Uncancelled rest →
      (rotateFrom policy keys journal last).Elapses (rotating R α) now k rest r later k' →
      ∃ turns left, Told policy journal last keys k rest r k' turns left)
    {opening : List (Spanned (rotation α))} (opened : opening.filterMap doing? = [(moment, .token key.kind)])
    (uncancelled : Uncancelled rest)
    (elapses : ((use (α := α) key).bind fun
      | .ok value => (clear key.secret).bind fun _ => pure (.ok value)
      | .error e =>
        if e.retryClass = .never then pure (.error e)
        else (blame key.secret).bind fun _ =>
          rotateFrom policy keys (journal.record (.failed key.masked e.message)) (some e)).Elapses
        (rotating R α) between mid rest r later k') :
    ∃ turns left, Told policy journal last (key :: keys) k (opening ++ rest) r k' turns left := by
  obtain ⟨begun, answered, ended, _, rest, rfl, -, ⟨-, rfl⟩, ending⟩ :=
    elapses_call_bind (S := rotation α) (.inr (.call key)) elapses
  cases ended with
  | ok value =>
    obtain ⟨marked, _, _, _, rest, rfl, -, served, finished⟩ :=
      elapses_call_bind (S := rotation α) (.inl (.markSucceeded key.secret)) ending
    obtain ⟨rfl, rfl⟩ := served_markSucceeded served
    obtain ⟨rfl, rfl, rfl, rfl⟩ := elapses_pure finished
    let turn : Turn α := ⟨key, moment, some ⟨begun, .ok value, later⟩⟩
    refine ⟨[turn], keys, told_of_last (t := turn) asked rfl rfl nofun rfl ?_⟩
    rw [List.filterMap_append, opened]
    rfl
  | error e =>
    by_cases never : e.retryClass = .never
    · dsimp only at ending
      rw [if_pos never] at ending
      obtain ⟨rfl, rfl, rfl, rfl⟩ := elapses_pure ending
      let turn : Turn α := ⟨key, moment, some ⟨begun, .error e, later⟩⟩
      have silent : Mark.of? (.error e : Except FetchError α) = none := if_pos never
      refine ⟨[turn], keys, told_of_last (t := turn) asked rfl rfl ?_ ?_ ?_⟩
      · rintro _ ⟨⟩
        exact never
      · simp only [Turn.mark, turn, silent]
      · rw [List.filterMap_append, opened]
        simp only [Turn.doings, turn, silent]
        rfl
    · dsimp only at ending
      rw [if_neg never] at ending
      obtain ⟨_, marked, _, _, rest, rfl, -, served, further⟩ :=
        elapses_call_bind (S := rotation α) (.inl (.markFailed key.secret)) ending
      obtain ⟨rfl, rfl⟩ := served_markFailed served
      let turn : Turn α := ⟨key, moment, some ⟨begun, .error e, marked⟩⟩
      have against : Mark.of? (.error e : Except FetchError α) = some .failed := if_neg never
      have passed : turn.Passed := by
        rintro _ ⟨⟩
        exact ⟨e, rfl, never⟩
      obtain ⟨turns, left, told⟩ := onward uncancelled.tail.tail further
      refine ⟨turn :: turns, left, Told.cons (t := turn) told passed asked ⟨nofun, nofun⟩ rfl ?_ ?_⟩
      · simp only [Turn.mark, turn, against]
        rfl
      · rw [List.filterMap_append, opened]
        simp only [Turn.doings, turn, against]
        rfl

theorem told_of_elapses {now later : Instant} (uncancelled : Uncancelled log)
    (elapses : (rotateFrom policy keys journal last).Elapses (rotating R α) now k log r later k') :
    ∃ turns left, Told policy journal last keys k log r k' turns left := by
  induction keys generalizing now k log journal last with
  | nil =>
    obtain ⟨rfl, rfl, rfl, rfl⟩ := elapses_pure elapses
    refine ⟨[], [], rfl, rfl, ?_, rfl, .inr ⟨rfl, nofun, ?_⟩⟩
    · cases policy with
      | wait => exact nofun
      | skip => trivial
    · rw [List.map_nil, List.append_nil]
      rfl
  | cons key keys ih =>
    obtain ⟨_, checked, isOff, _, rest, rfl, -, served, granting⟩ :=
      elapses_call_bind (S := rotation α) (.inl .isCancelled) elapses
    obtain ⟨rfl, rfl⟩ := served_isCancelled served
    cases isOff with
    | true => exact absurd uncancelled.head (by simp [tellsCancelled])
    | false =>
      obtain ⟨e, rest, moment, granted, between, mid, rfl, asks, asked, going⟩ :=
        elapses_admission uncancelled.tail granting
      let opening : List (Spanned (rotation α)) := [⟨checked, checked, ⟨.inl .isCancelled, false⟩⟩, e]
      have opened : opening.filterMap doing? = [(moment, .token key.kind)] := by
        have quiet : doing? (α := α) ⟨checked, checked, ⟨.inl .isCancelled, false⟩⟩ = none := rfl
        rw [List.filterMap_cons_none quiet, List.filterMap_cons_some asks, List.filterMap_nil]
      cases granted with
      | true => exact told_of_used asked ih opened uncancelled.tail.tail going
      | false =>
        let turn : Turn α := ⟨key, moment, none⟩
        obtain ⟨turns, left, told⟩ := ih uncancelled.tail.tail going
        have idle : turn.usage = none ↔ false = false := ⟨fun _ => rfl, fun _ => rfl⟩
        refine ⟨turn :: turns, left, Told.cons (t := turn) told nofun asked idle rfl rfl ?_⟩
        show (opening ++ rest).filterMap doing? = _
        rw [List.filterMap_append, opened]
        rfl

end Told

/-! ### The result -/

section Result

variable {turns : List (Turn α)}

theorem tried_entries (turns : List (Turn α)) :
    (Journal.mk (turns.map Turn.entry)).tried = (calls turns).length := by
  induction turns with
  | nil => rfl
  | cons t turns ih =>
    rw [Journal.tried] at ih ⊢
    rw [List.map_cons, calls, List.filterMap_cons, List.filter_cons]
    rcases usage : t.usage with _ | ⟨begun, value | e, noted⟩ <;>
      simp [Turn.entry, Turn.call?, usage, Journal.Entry.isUse, ih, calls]

theorem last_failure (passed : ∀ t ∈ turns, t.Passed) :
    (∃ key e, (calls turns).getLast? = some (key, .error e) ∧ turns.foldl Turn.failure none = some e) ∨
      (∀ t ∈ turns, t.usage = none) ∧ turns.foldl Turn.failure none = none := by
  induction turns using List.reverseRecOn with
  | nil => exact .inr ⟨nofun, rfl⟩
  | append_singleton turns t ih =>
    have before := ih fun t' member => passed t' (List.mem_append_left [t] member)
    have own := passed t (List.mem_append_right turns (List.mem_singleton_self t))
    rw [List.foldl_append, calls, List.filterMap_append]
    cases usage : t.usage with
    | none =>
      rcases before with ⟨key, e, last, failure⟩ | ⟨idle, nothing⟩
      · refine .inl ⟨key, e, ?_, ?_⟩
        · rw [← calls, last.symm]
          simp [Turn.call?, usage]
        · simpa [Turn.failure, usage] using failure
      · refine .inr ⟨?_, ?_⟩
        · intro t' member
          rcases List.mem_append.mp member with old | new
          · exact idle t' old
          · rw [List.mem_singleton.mp new]
            exact usage
        · simpa [Turn.failure, usage] using nothing
    | some u =>
      obtain ⟨e, ended, -⟩ := own u usage
      refine .inl ⟨t.key, e, ?_, ?_⟩
      · simp [Turn.call?, usage, ended]
      · obtain ⟨begun, _, noted⟩ := u
        cases ended
        simp [Turn.failure, usage]

theorem concludes_of_exhausted (some_turn : turns ≠ []) (passed : ∀ t ∈ turns, t.Passed) :
    Concludes turns []
      (.error (exhausted ⟨turns.map Turn.entry⟩ (turns.foldl Turn.failure none))) := by
  rcases last_failure passed with ⟨key, e, last, failure⟩ | ⟨idle, nothing⟩
  · rw [failure, exhausted, tried_entries]
    exact .exhausted passed last
  · have entries : turns.map Turn.entry = turns.map fun t => .skipped t.key.masked := by
      apply List.map_congr_left
      intro t member
      rw [Turn.entry, idle t member]
    have filled : turns.isEmpty = false := by simpa using some_turn
    have told : Concludes turns [] (.error (unused turns)) := .unused idle
    rw [unused, filled] at told
    rw [nothing, entries]
    exact told

variable [Quantity R] {policy : RateLimit.Policy} {keys : List Credential} {now later : Instant}
  {k k' : KeyRing R} {log : List (Spanned (rotation α))} {r : Except FetchError α}

/-- A rotation that nobody cancels gives its credentials their turns in their order, up to the first
success or failure for good. What is asked, which credentials are used, the marks in the cooldown and the
result are those of the turns. -/
theorem rotates_by_turns
    (elapses : (rotate policy keys).Elapses (rotating R α) now k log r later k')
    (uncancelled : Uncancelled log) :
    ∃ turns left, keys = turns.map Turn.key ++ left ∧
      log.filterMap doing? = turns.flatMap Turn.doings ∧
      Admitted policy k.limiter turns ∧
      k'.cooldown = turns.foldl Turn.mark k.cooldown ∧
      Concludes turns left r := by
  cases keys with
  | nil =>
    obtain ⟨rfl, rfl, rfl, rfl⟩ := elapses_pure elapses
    refine ⟨[], [], rfl, rfl, ?_, rfl, .unused nofun⟩
    cases policy with
    | wait => exact nofun
    | skip => trivial
  | cons key keys =>
    obtain ⟨turns, left, told⟩ := told_of_elapses uncancelled elapses
    refine ⟨turns, left, told.keys, told.done, told.admitted, told.cooldown, ?_⟩
    rcases told.ends with ⟨early, t, rfl, passed, ended, final⟩ | ⟨rfl, passed, rfl⟩
    · cases r with
      | ok value => exact .succeeded passed ended
      | error e => exact .gaveUp passed ended (final e rfl)
    · have some_turn : turns ≠ [] := by
        rintro rfl
        exact List.cons_ne_nil key keys told.keys
      exact concludes_of_exhausted some_turn passed

end Result

def rotatingBy [Quantity R] (script : List (Except FetchError α)) (op : (rotation α).Op) (now : Instant)
    (k : KeyRing R) : List (Except FetchError α) × (rotation α).Answer op × Instant × KeyRing R :=
  match op with
  | .inl op => (script, (k.prompt now op).1, now, (k.prompt now op).2)
  | .inr (.call _) => (script.tail, script.headD (.error .cancelled), now, k)

theorem rotating_rotatingBy [Quantity R] (script : List (Except FetchError α)) (op : (rotation α).Op)
    (now : Instant) (k : KeyRing R) :
    rotating R α op now k (rotatingBy script op now k).2.1 (rotatingBy script op now k).2.2.1
      (rotatingBy script op now k).2.2.2 := by
  match op with
  | .inl op => exact k.service_prompt now op
  | .inr (.call key) => exact ⟨Nat.le_refl now, rfl⟩

/-- A key ring with one token for demo credentials. -/
def scarce : KeyRing Rat where
  credentials := []
  config := {}
  cooldown := Cooldown.fresh (Duration.ofSeconds 60)
  limiter := Limiter.ofLimits ⟨none, some ⟨1, 1⟩, none⟩

def scarceKeys : List Credential := [⟨"p", .paid⟩, ⟨"d", .demo⟩, ⟨"s", .demo⟩]

def scarceRotation : Program (rotation Nat) (Except FetchError Nat) := rotate .skip scarceKeys

def scarceRun : List (Spanned (rotation Nat)) × Except FetchError Nat × Instant × KeyRing Rat :=
  scarceRotation.enact rotatingBy [.error (.bodyRead ""), .error (.status 401 "")] 5 scarce

/-- The same key ring after a failure of its second credential. -/
def benched : KeyRing Rat :=
  { scarce with cooldown := { scarce.cooldown with failures := Table.ofList [("d", 1)] } }

def clearingRun : List (Spanned (rotation Nat)) × Except FetchError Nat × Instant × KeyRing Rat :=
  scarceRotation.enact rotatingBy [.error (.bodyRead ""), .ok 7] 5 benched

theorem rotates_by_turns_scarce :
    (Uncancelled scarceRun.1 ∧ scarceRun.2.1 = .error (.credentialsExhausted 2 (.status 401 "")) ∧
      scarceRun.2.2.2.cooldown.failures.entries = [("d", 5), ("p", 5)] ∧
      ∃ turns left, scarceKeys = turns.map Turn.key ++ left ∧
        scarceRun.1.filterMap doing? = turns.flatMap Turn.doings ∧
        Admitted .skip scarce.limiter turns ∧
        scarceRun.2.2.2.cooldown = turns.foldl Turn.mark scarce.cooldown ∧
        Concludes turns left scarceRun.2.1) ∧
    Uncancelled clearingRun.1 ∧ clearingRun.2.1 = .ok 7 ∧
      benched.cooldown.failures.entries = [("d", 1)] ∧
      clearingRun.2.2.2.cooldown.failures.entries = [("p", 5)] ∧
      ∃ turns left, scarceKeys = turns.map Turn.key ++ left ∧
        clearingRun.1.filterMap doing? = turns.flatMap Turn.doings ∧
        Admitted .skip benched.limiter turns ∧
        clearingRun.2.2.2.cooldown = turns.foldl Turn.mark benched.cooldown ∧
        Concludes turns left clearingRun.2.1 := by
  have fails := elapses_enact rotating_rotatingBy scarceRotation
    [.error (.bodyRead ""), .error (.status 401 "")] 5 scarce
  have succeeds := elapses_enact rotating_rotatingBy scarceRotation
    [.error (.bodyRead ""), .ok 7] 5 benched
  have failing : Uncancelled scarceRun.1 := by decide +kernel
  have clearing : Uncancelled clearingRun.1 := by decide +kernel
  exact ⟨⟨failing, by decide +kernel, by decide +kernel, rotates_by_turns fails failing⟩,
    clearing, by decide +kernel, rfl, by decide +kernel, rotates_by_turns succeeds clearing⟩

end KeyRing

end MarketFeed
