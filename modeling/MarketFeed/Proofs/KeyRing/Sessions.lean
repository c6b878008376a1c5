import MarketFeed.Proofs.Simulation.Elapsing
import MarketFeed.Simulation.Keys
/-!
Sessions with a key ring: the question which credentials may be used, and their rotation. What a session
does is told credential by credential, with the times and what it leaves of the key ring.
-/

set_option autoImplicit false
set_option relaxedAutoImplicit false

namespace MarketFeed

open Program Simulation

namespace KeyRing

def sessions (α : Type) : Signature := ApiClient.selections.sum (rotation α)

def session {α : Type} (policy : RateLimit.Policy) (fine : Bool) :
    Program (sessions α) (Except FetchError α) :=
  (Program.call (S := sessions α) (.inl (.available fine))).bind fun keys =>
    (rotate policy keys).inSecond

variable {R α : Type}

/-- A key ring on which rotations run whose uses end in any way at any time. -/
def rotating (R α : Type) [Quantity R] : Service (KeyRing R) (rotation α) :=
  Keys.controls.service.sum (Service.any (KeyRing R) (uses α))

def serving (R α : Type) [Quantity R] : Service (KeyRing R) (sessions α) :=
  Keys.selections.service.sum (rotating R α)

/-! ### What is served -/

section Served

variable {now later : Instant} {k k' : KeyRing R}

theorem served_available {fine : Bool} {keys : ApiClient.selections.Answer (.available fine)}
    (served : Keys.selections.Serves (.available fine) now k keys later k') :
    later = now ∧ keys = (k.available now fine).1 ∧ k' = (k.available now fine).2 := by
  cases served with
  | atOnce cancelled given => exact ⟨rfl, (Option.some.inj given).symm, rfl⟩
  | waited cancelled waits rest => cases waits

variable [Quantity R]

theorem served_isCancelled {r : controls.Answer .isCancelled}
    (served : Keys.controls.Serves .isCancelled now k r later k') : later = now ∧ k' = k := by
  cases served with
  | atOnce cancelled given => exact ⟨rfl, rfl⟩
  | waited cancelled waits rest => cases waits

theorem served_markFailed {secret : String} {r : controls.Answer (.markFailed secret)}
    (served : Keys.controls.Serves (.markFailed secret) now k r later k') :
    later = now ∧ k' = k.markFailed now secret := by
  cases served with
  | atOnce cancelled given => exact ⟨rfl, rfl⟩
  | waited cancelled waits rest => cases waits

theorem served_markSucceeded {secret : String} {r : controls.Answer (.markSucceeded secret)}
    (served : Keys.controls.Serves (.markSucceeded secret) now k r later k') :
    later = now ∧ k' = k.markSucceeded secret := by
  cases served with
  | atOnce cancelled given => exact ⟨rfl, rfl⟩
  | waited cancelled waits rest => cases waits

theorem served_tryAcquire {kind : Credential.Kind} {r : controls.Answer (.tryAcquire kind)}
    (served : Keys.controls.Serves (.tryAcquire kind) now k r later k') :
    later = now ∧ r = (k.limiter.take now kind).1 ∧
      k' = { k with limiter := (k.limiter.take now kind).2 } := by
  cases served with
  | atOnce cancelled given => exact ⟨rfl, (Option.some.inj given).symm, rfl⟩
  | waited cancelled waits rest => cases waits

theorem acquire_limiter (now : Instant) (cancelled : Bool) (kind : Credential.Kind) (k : KeyRing R) :
    (Keys.acquire now cancelled kind k).2 =
      { k with limiter := (k.limiter.attempt now kind).2 } := by
  unfold Keys.acquire
  dsimp only
  split
  · rfl
  · split <;> rfl

private theorem resumes_acquire {kind : Credential.Kind} {r : controls.Answer (.acquire kind)}
    (resumes : Keys.controls.Resumes (.acquire kind) now k r later k') :
    ∃ l, k' = { k with limiter := l } := by
  have once : ∀ later cancelled (k : KeyRing R), ∃ l,
      (Keys.resume later cancelled (.acquire kind) k).2 = { k with limiter := l } := by
    intro later cancelled k
    cases cancelled with
    | true => exact ⟨k.limiter, rfl⟩
    | false => exact ⟨_, acquire_limiter later false kind k⟩
  induction resumes with
  | last cancelled passed given => exact once _ cancelled _
  | again cancelled passed waits rest ih =>
    obtain ⟨l, before⟩ := once _ cancelled _
    obtain ⟨l', after⟩ := ih
    refine ⟨l', ?_⟩
    rw [after]
    exact congrArg (fun k : KeyRing R => { k with limiter := l' }) before

theorem served_acquire {kind : Credential.Kind} {r : controls.Answer (.acquire kind)}
    (served : Keys.controls.Serves (.acquire kind) now k r later k') :
    now ≤ later ∧ ∃ l, k' = { k with limiter := l } := by
  refine ⟨Keys.controls.forward_service served, ?_⟩
  cases served with
  | atOnce cancelled given => exact ⟨_, acquire_limiter now cancelled kind k⟩
  | waited cancelled waits rest =>
    obtain ⟨l, after⟩ := resumes_acquire rest
    refine ⟨l, ?_⟩
    rw [after]
    exact congrArg (fun k : KeyRing R => { k with limiter := l }) (acquire_limiter now cancelled kind k)

end Served

/-! ### What a rotation does -/

def token (policy : RateLimit.Policy) (kind : Credential.Kind) (granted : Bool) :
    Exchanged (sessions α) :=
  match policy with
  | .wait => ⟨.inr (.inl (.acquire kind)), if granted then Signal.elapsed else Signal.cancelled⟩
  | .skip => ⟨.inr (.inl (.tryAcquire kind)), granted⟩

def opening (policy : RateLimit.Policy) (kind : Credential.Kind) (granted : Bool) :
    List (Exchanged (sessions α)) :=
  [⟨.inr (.inl .isCancelled), false⟩, token policy kind granted]

/-- Exchanges that are about no credential in particular. -/
def Quiet : Exchanged (sessions α) → Prop
  | ⟨.inr (.inl .isCancelled), _⟩ => True
  | ⟨.inr (.inl (.acquire _)), _⟩ => True
  | ⟨.inr (.inl (.tryAcquire _)), _⟩ => True
  | _ => False

/-- Nothing but the limiter of a key ring has changed. -/
def Alike (k k' : KeyRing R) : Prop := ∃ l, k' = { k with limiter := l }

def called (asked answered : Instant) (key : Credential) (r : Except FetchError α) :
    Spanned (sessions α) := ⟨asked, answered, ⟨.inr (.inr (.call key)), r⟩⟩

def blamed (now : Instant) (secret : String) : Spanned (sessions α) :=
  ⟨now, now, ⟨.inr (.inl (.markFailed secret)), ()⟩⟩

def cleared (now : Instant) (secret : String) : Spanned (sessions α) :=
  ⟨now, now, ⟨.inr (.inl (.markSucceeded secret)), ()⟩⟩

structure Opened (policy : RateLimit.Policy) (kind : Credential.Kind) (granted : Bool) (now : Instant)
    (k : KeyRing R) (log : List (Spanned (sessions α))) (later : Instant) (k' : KeyRing R) : Prop where
  exchanged : log.map Spanned.exchanged = opening policy kind granted
  le : now ≤ later
  alike : Alike k k'

/-- What a rotation through some credentials does, credential by credential: without a token one is passed
over, the failure of its use benches it and the rotation goes on with the next, and a failure for good, a
success or a cancellation ends the rotation. -/
inductive Rotates (policy : RateLimit.Policy) : List Credential → Instant → KeyRing R →
    List (Spanned (sessions α)) → Except FetchError α → Instant → KeyRing R → Prop where
  | exhausted {e : FetchError} {now : Instant} {k : KeyRing R} (lasting : e.retryClass ≠ .never) :
      Rotates policy [] now k [] (.error e) now k
  | cancelled {key : Credential} {keys : List Credential} {now later : Instant} {k k' : KeyRing R}
      {log : List (Spanned (sessions α))} (quiet : ∀ e ∈ log, Quiet e.exchanged) (le : now ≤ later)
      (alike : Alike k k') : Rotates policy (key :: keys) now k log (.error .cancelled) later k'
  | skipped {key : Credential} {keys : List Credential} {now between later : Instant}
      {k mid k' : KeyRing R} {log rest : List (Spanned (sessions α))} {r : Except FetchError α}
      (skips : policy = .skip) (opened : Opened policy key.kind false now k log between mid)
      (onward : Rotates policy keys between mid rest r later k') :
      Rotates policy (key :: keys) now k (log ++ rest) r later k'
  | failed {key : Credential} {keys : List Credential}
      {now between asked answered marked later : Instant} {k mid k' : KeyRing R}
      {log rest : List (Spanned (sessions α))} {e : FetchError} {r : Except FetchError α}
      (opened : Opened policy key.kind true now k log between mid) (lasting : e.retryClass ≠ .never)
      (asks : between ≤ asked) (answers : asked ≤ answered) (marks : answered ≤ marked)
      (onward : Rotates policy keys marked (mid.markFailed marked key.secret) rest r later k') :
      Rotates policy (key :: keys) now k
        (log ++ called asked answered key (.error e) :: blamed marked key.secret :: rest) r later k'
  | gaveUp {key : Credential} {keys : List Credential} {now between asked answered : Instant}
      {k mid : KeyRing R} {log : List (Spanned (sessions α))} {e : FetchError}
      (opened : Opened policy key.kind true now k log between mid) (never : e.retryClass = .never)
      (asks : between ≤ asked) (answers : asked ≤ answered) :
      Rotates policy (key :: keys) now k (log ++ [called asked answered key (.error e)]) (.error e)
        answered mid
  | succeeded {key : Credential} {keys : List Credential}
      {now between asked answered marked : Instant} {k mid : KeyRing R}
      {log : List (Spanned (sessions α))} {value : α}
      (opened : Opened policy key.kind true now k log between mid) (asks : between ≤ asked)
      (answers : asked ≤ answered) (marks : answered ≤ marked) :
      Rotates policy (key :: keys) now k
        (log ++ [called asked answered key (.ok value), cleared marked key.secret]) (.ok value) marked
        (mid.markSucceeded key.secret)

theorem Alike.refl (k : KeyRing R) : Alike k k := ⟨k.limiter, rfl⟩

section Rotates

variable {policy : RateLimit.Policy} {now later : Instant} {k k' : KeyRing R}

theorem Opened.quiet {kind : Credential.Kind} {granted : Bool} {log : List (Spanned (sessions α))}
    (opened : Opened policy kind granted now k log later k') : ∀ e ∈ log, Quiet e.exchanged := by
  intro e member
  have among : e.exchanged ∈ (opening policy kind granted : List (Exchanged (sessions α))) := by
    rw [← opened.exchanged]
    exact List.mem_map_of_mem member
  rcases List.mem_cons.mp among with same | among
  · rw [same]
    trivial
  · rw [List.mem_singleton.mp among]
    cases policy <;> trivial

variable [Quantity R]

private theorem elapses_grant {kind : Credential.Kind} {β : Type} {b : β}
    {f : Admission → Program (rotation α) β} {log : List (Spanned (rotation α))}
    (elapses : ((grant policy kind).bind f).Elapses (rotating R α) now k log b later k') :
    ∃ e rest granted between mid, log = e :: rest ∧ now ≤ between ∧ Alike k mid ∧
      e.inSecond.exchanged = token policy kind granted ∧
      (f (if granted then .granted else if policy = .wait then .cancelled else .skipped)).Elapses
        (rotating R α) between mid rest b later k' := by
  cases policy with
  | wait =>
    obtain ⟨asked, answered, signal, mid, rest, rfl, passed, served, onward⟩ :=
      elapses_call_bind (S := rotation α) (.inl (.acquire kind)) elapses
    obtain ⟨waited, alike⟩ := served_acquire served
    have le : now ≤ answered := Nat.le_trans passed waited
    cases signal with
    | elapsed => exact ⟨_, rest, true, answered, mid, rfl, le, alike, rfl, onward⟩
    | cancelled => exact ⟨_, rest, false, answered, mid, rfl, le, alike, rfl, onward⟩
  | skip =>
    obtain ⟨asked, answered, granted, mid, rest, rfl, passed, served, onward⟩ :=
      elapses_call_bind (S := rotation α) (.inl (.tryAcquire kind)) elapses
    obtain ⟨rfl, -, same⟩ := served_tryAcquire served
    have alike : Alike k mid := ⟨_, same⟩
    refine ⟨_, rest, granted, answered, mid, rfl, passed, alike, rfl, ?_⟩
    cases granted <;> exact onward

private theorem rotates_of_used {key : Credential} {keys : List Credential} {journal : Journal}
    {between : Instant} {mid : KeyRing R} {log : List (Spanned (sessions α))}
    {rest : List (Spanned (rotation α))} {r : Except FetchError α}
    (opened : Opened policy key.kind true now k log between mid)
    (onward : ∀ {journal last now k rest}, (∀ e, last = some e → e.retryClass ≠ .never) →
      (rotateFrom policy keys journal last).Elapses (rotating R α) now k rest r later k' →
      Rotates policy keys now k (rest.map .inSecond) r later k')
    (elapses : ((use (α := α) key).bind fun
      | .ok value => (clear key.secret).bind fun _ => pure (.ok value)
      | .error e =>
        if e.retryClass = .never then pure (.error e)
        else (blame key.secret).bind fun _ =>
          rotateFrom policy keys (journal.record (.failed key.masked e.message)) (some e)).Elapses
        (rotating R α) between mid rest r later k') :
    Rotates policy (key :: keys) now k (log ++ rest.map .inSecond) r later k' := by
  obtain ⟨asked, answered, used, _, rest, rfl, asks, ⟨answers, rfl⟩, ending⟩ :=
    elapses_call_bind (S := rotation α) (.inr (.call key)) elapses
  cases used with
  | ok value =>
    obtain ⟨marked, _, _, _, rest, rfl, marks, served, ended⟩ :=
      elapses_call_bind (S := rotation α) (.inl (.markSucceeded key.secret)) ending
    obtain ⟨rfl, rfl⟩ := served_markSucceeded served
    obtain ⟨rfl, rfl, rfl, rfl⟩ := elapses_pure ended
    exact .succeeded opened asks answers marks
  | error e =>
    by_cases never : e.retryClass = .never
    · dsimp only at ending
      rw [if_pos never] at ending
      obtain ⟨rfl, rfl, rfl, rfl⟩ := elapses_pure ending
      exact .gaveUp opened never asks answers
    · dsimp only at ending
      rw [if_neg never] at ending
      obtain ⟨marked, _, _, _, rest, rfl, marks, served, further⟩ :=
        elapses_call_bind (S := rotation α) (.inl (.markFailed key.secret)) ending
      obtain ⟨rfl, rfl⟩ := served_markFailed served
      refine .failed opened never asks answers marks (onward ?_ further)
      rintro _ ⟨⟩
      exact never

theorem rotates_of_elapses {keys : List Credential} {journal : Journal} {last : Option FetchError}
    {log : List (Spanned (rotation α))} {r : Except FetchError α}
    (lasting : ∀ e, last = some e → e.retryClass ≠ .never)
    (elapses : (rotateFrom policy keys journal last).Elapses (rotating R α) now k log r later k') :
    Rotates policy keys now k (log.map .inSecond) r later k' := by
  induction keys generalizing now k log journal last with
  | nil =>
    obtain ⟨rfl, rfl, rfl, rfl⟩ := elapses_pure elapses
    refine .exhausted ?_
    cases last with
    | none => exact nofun
    | some e => simp [exhausted, FetchError.retryClass, lasting e rfl]
  | cons key keys ih =>
    obtain ⟨asked, answered, isOff, isOn, rest, rfl, asks, served, granting⟩ :=
      elapses_call_bind (S := rotation α) (.inl .isCancelled) elapses
    obtain ⟨rfl, rfl⟩ := served_isCancelled served
    cases isOff with
    | true =>
      obtain ⟨rfl, rfl, rfl, rfl⟩ := elapses_pure granting
      refine .cancelled ?_ asks (.refl _)
      intro e member
      rw [List.mem_singleton.mp member]
      trivial
    | false =>
      obtain ⟨e, rest, granted, between, mid, rfl, le, alike, asked_token, going⟩ :=
        elapses_grant granting
      have opened : Opened policy key.kind granted now isOn
          [⟨answered, answered, ⟨.inr (.inl .isCancelled), false⟩⟩, e.inSecond] between mid := by
        refine ⟨?_, Nat.le_trans asks le, alike⟩
        exact congrArg (fun t => [⟨.inr (.inl .isCancelled), false⟩, t]) asked_token
      cases granted with
      | true => exact rotates_of_used opened ih going
      | false =>
        cases policy with
        | skip => exact .skipped rfl opened (ih lasting going)
        | wait =>
          obtain ⟨rfl, rfl, rfl, rfl⟩ := elapses_pure going
          exact .cancelled opened.quiet opened.le alike

theorem rotates_of_rotate {keys : List Credential} {log : List (Spanned (rotation α))}
    {r : Except FetchError α}
    (elapses : (rotate policy keys).Elapses (rotating R α) now k log r later k') :
    Rotates policy keys now k (log.map .inSecond) r later k' := by
  cases keys with
  | nil =>
    obtain ⟨rfl, rfl, rfl, rfl⟩ := elapses_pure elapses
    have lasting : noneLeft.retryClass ≠ .never := by decide
    exact .exhausted lasting
  | cons key keys =>
    refine rotates_of_elapses ?_ elapses
    exact nofun

def offered (now : Instant) (fine : Bool) (keys : List Credential) : Spanned (sessions α) :=
  ⟨now, now, ⟨.inl (.available fine), keys⟩⟩

theorem rotates_of_session {fine : Bool} {log : List (Spanned (sessions α))} {r : Except FetchError α}
    (elapses : (session policy fine).Elapses (serving R α) now k log r later k') :
    ∃ begun rest, now ≤ begun ∧ log = offered begun fine (k.available begun fine).1 :: rest ∧
      Rotates policy (k.available begun fine).1 begun (k.available begun fine).2 rest r later k' := by
  obtain ⟨asked, answered, keys, mid, rest, rfl, asks, served, going⟩ :=
    elapses_call_bind (S := sessions α) (.inl (.available fine)) elapses
  obtain ⟨rfl, rfl, rfl⟩ := served_available served
  obtain ⟨rest, rfl, rotating_⟩ := elapses_inSecond going
  exact ⟨answered, _, asks, rfl, rotates_of_rotate rotating_⟩

end Rotates

/-! ### A key ring that answers at once -/

section Prompt

variable [Quantity R]

def prompt (now : Instant) (k : KeyRing R) : (op : controls.Op) → controls.Answer op × KeyRing R
  | .isCancelled => (false, k)
  | .acquire kind =>
    (if (k.limiter.attempt now kind).1.isNone then Signal.elapsed else Signal.cancelled,
      { k with limiter := (k.limiter.attempt now kind).2 })
  | .tryAcquire kind =>
    ((k.limiter.take now kind).1, { k with limiter := (k.limiter.take now kind).2 })
  | .markFailed secret => ((), k.markFailed now secret)
  | .markSucceeded secret => ((), k.markSucceeded secret)

theorem service_prompt (now : Instant) (k : KeyRing R) (op : controls.Op) :
    Keys.controls.service op now k (k.prompt now op).1 now (k.prompt now op).2 := by
  cases op with
  | isCancelled => exact .atOnce false rfl
  | tryAcquire kind => exact .atOnce false rfl
  | markFailed secret => exact .atOnce false rfl
  | markSucceeded secret => exact .atOnce false rfl
  | acquire kind =>
    have given : (Keys.controls.start now true (.acquire kind) k).1.answer? =
        some (k.prompt now (.acquire kind)).1 := by
      show (Keys.acquire now true kind k).1.answer? = _
      cases waits : (k.limiter.attempt now kind).1 <;>
        · simp only [Keys.acquire, prompt, waits]
          rfl
    have left : (Keys.controls.start now true (.acquire kind) k).2 = (k.prompt now (.acquire kind)).2 :=
      acquire_limiter now true kind k
    rw [← left]
    exact .atOnce true given

def scripted (script : List (Except FetchError α)) (op : (sessions α).Op) (now : Instant)
    (k : KeyRing R) : List (Except FetchError α) × (sessions α).Answer op × Instant × KeyRing R :=
  match op with
  | .inl (.available fine) => (script, (k.available now fine).1, now, (k.available now fine).2)
  | .inr (.inl op) => (script, (k.prompt now op).1, now, (k.prompt now op).2)
  | .inr (.inr (.call _)) => (script.tail, script.headD (.error .cancelled), now, k)

theorem serving_scripted (script : List (Except FetchError α)) (op : (sessions α).Op) (now : Instant)
    (k : KeyRing R) :
    serving R α op now k (scripted script op now k).2.1 (scripted script op now k).2.2.1
      (scripted script op now k).2.2.2 := by
  match op with
  | .inl (.available fine) => exact .atOnce false rfl
  | .inr (.inl op) => exact k.service_prompt now op
  | .inr (.inr (.call key)) => exact ⟨Nat.le_refl now, rfl⟩

end Prompt

end KeyRing

end MarketFeed
