import MarketFeed.Proofs.KeyRing.Calls
import MarketFeed.Proofs.Simulation.Tracing
/-!
Tasks that share a limiter. However their requests are interleaved, what they are answered is what the
limiter replies to calls that stand in one order in time; so the tokens that all of them together get are
bounded by what a full bucket holds and what flows in.
-/

set_option autoImplicit false
set_option relaxedAutoImplicit false

namespace MarketFeed

open Program Simulation

namespace KeyRing

open Limiter

/-- Tasks that ask anything of one key ring, of which all but the limiter may change at any time. -/
def tasks (α : Type) : Setting (KeyRing Rat) controls α where
  toHandler := Keys.controls
  starts _ _ _ := True
  changes _ k k' := k'.limiter = k.limiter

abbrev TaskSystem (α : Type) := System (KeyRing Rat) controls α

/-- The call that an answer settles, if any. -/
def settles? (now : Instant) : (op : controls.Op) → controls.Answer op → Option Called
  | .acquire kind, Signal.elapsed => some ⟨now, .attempt kind, .granted⟩
  | .tryAcquire kind, true => some ⟨now, .take kind, .granted⟩
  | .tryAcquire kind, false => some ⟨now, .take kind, .refused⟩
  | .acquire _, Signal.cancelled | .isCancelled, _ | .markFailed _, _ | .markSucceeded _, _ => none

def heard {α : Type} (threads : List (Thread controls α)) : List Called :=
  (threads.flatMap Thread.log).filterMap fun e => settles? e.time e.exchanged.op e.exchanged.answer

def ComesOf (now : Instant) (k : KeyRing Rat) (op : controls.Op)
    (r : Step (controls.Answer op) × KeyRing Rat) : Prop :=
  ∃ calls : List Call, (k.limiter.answer (calls.map fun c => (now, c))).2 = r.2.limiter ∧
    (r.1.answer?.bind (settles? now op)).toList =
      (k.limiter.answer (calls.map fun c => (now, c))).1.filter Called.settled

section Requests

variable {now : Instant} {k : KeyRing Rat}

private theorem comesOf_acquire (cancelled : Bool) (kind : Credential.Kind) :
    ComesOf now k (.acquire kind) (Keys.acquire now cancelled kind k) := by
  refine ⟨[.attempt kind], ?_, ?_⟩
  · rw [acquire_limiter]
    rfl
  · simp only [Keys.acquire, List.map_cons, List.map_nil, answer, Limiter.call]
    cases (k.limiter.attempt now kind).1 with
    | none => rfl
    | some pause => cases cancelled <;> rfl

theorem comesOf_start (cancelled : Bool) (op : controls.Op) :
    ComesOf now k op (Keys.start now cancelled op k) := by
  cases op with
  | isCancelled => exact ⟨[], rfl, by cases cancelled <;> rfl⟩
  | markFailed secret => exact ⟨[], rfl, rfl⟩
  | markSucceeded secret => exact ⟨[], rfl, rfl⟩
  | acquire kind => exact comesOf_acquire cancelled kind
  | tryAcquire kind =>
    refine ⟨[.take kind], rfl, ?_⟩
    simp only [Keys.start, List.map_cons, List.map_nil, answer, Limiter.call]
    cases (k.limiter.take now kind).1 <;> rfl

theorem comesOf_resume (cancelled : Bool) (op : controls.Op) :
    ComesOf now k op (Keys.resume now cancelled op k) := by
  cases op with
  | acquire kind =>
    cases cancelled with
    | true => exact ⟨[], rfl, rfl⟩
    | false => exact comesOf_acquire false kind
  | isCancelled | markFailed secret | markSucceeded secret | tryAcquire kind =>
    exact comesOf_start cancelled _

end Requests

/-! ### Every call of every task -/

section Recorded

variable {α : Type} {l : Limiter Rat} {w : TaskSystem α}

/-- What the tasks were told is what the limiter replied to some calls, one after the other. -/
def Recorded (l : Limiter Rat) (w : TaskSystem α) : Prop :=
  ∃ calls, InOrder 0 w.now calls ∧ (l.answer calls).2 = w.state.limiter ∧
    (heard w.threads).Perm ((l.answer calls).1.filter Called.settled)

def replies (l : Limiter Rat) : Account (KeyRing Rat) Called controls where
  time := Called.time
  told? e := settles? e.time e.exchanged.op e.exchanged.answer
  isTold := Called.settled
  leads called k := ∃ calls, l.answer calls = (called, k.limiter)

theorem adds_replies {now : Instant} {called : List Called} {k : KeyRing Rat} {op : controls.Op}
    {r : Step (controls.Answer op) × KeyRing Rat} (comes : ComesOf now k op r)
    (leads : (replies l).leads called k) : (replies l).Adds now called op r := by
  obtain ⟨calls, told⟩ := leads
  obtain ⟨new, limiter, tells⟩ := comes
  refine ⟨_, fun c here => ?_, ⟨calls ++ new.map fun c => (now, c), ?_⟩, tells⟩
  · have asked := List.mem_map_of_mem (f := Called.asked) here
    rw [map_asked_answer] at asked
    obtain ⟨_, -, same⟩ := List.mem_map.mp asked
    exact (congrArg Prod.fst same).symm
  · rw [answer_append, told, limiter]

theorem covers_replies (l : Limiter Rat) : (replies l).Covers (tasks α) where
  start := adds_replies (comesOf_start _ _)
  resume := adds_replies (comesOf_resume _ _)
  change := by
    rintro _ k k' called same ⟨calls, told⟩
    exact ⟨calls, by rw [told, same]⟩

theorem recorded {s : KeyRing Rat} (reached : (tasks α).Reaches s w) : Recorded s.limiter w := by
  obtain ⟨called, ordered, past, ⟨calls, told⟩, hears⟩ :=
    (covers_replies s.limiter).reached ⟨[], rfl⟩ reached
  have asked : calls = called.map Called.asked := by
    rw [← map_asked_answer s.limiter calls, told]
  refine ⟨calls, ⟨?_, fun _ _ => Nat.zero_le _, ?_⟩, by rw [told], by rw [told]; exact hears⟩
  · rw [asked]
    exact List.pairwise_map.mpr ordered
  · rw [asked]
    exact List.forall_mem_map.mpr past

end Recorded

/-! ### Tokens of all tasks -/

section Tokens

variable {α : Type} {kind : Credential.Kind} {a b : Instant}

/-- How many tokens of a kind the tasks got from a time to a time. -/
def tokensWithin (kind : Credential.Kind) (a b : Instant) (threads : List (Thread controls α)) : Nat :=
  (threads.flatMap Thread.log).countP fun e =>
    token? e.exchanged.op e.exchanged.answer = some kind ∧ a ≤ e.time ∧ e.time ≤ b

private theorem gives_settles (now : Instant) (op : controls.Op) (r : controls.Answer op) :
    (token? op r = some kind ∧ a ≤ now ∧ now ≤ b) ↔
      ∃ c, settles? now op r = some c ∧ c.Gives kind ∧ a ≤ c.time ∧ c.time ≤ b := by
  cases op with
  | acquire kind' => cases r <;> simp [token?, settles?, Called.Gives, Call.kind]
  | tryAcquire kind' => cases r <;> simp [token?, settles?, Called.Gives, Call.kind]
  | isCancelled | markFailed secret | markSucceeded secret => simp [token?, settles?]

theorem tokensWithin_eq (threads : List (Thread controls α)) :
    tokensWithin kind a b threads =
      (heard threads).countP fun c => c.Gives kind ∧ a ≤ c.time ∧ c.time ≤ b := by
  rw [tokensWithin, heard, List.countP_filterMap]
  refine List.countP_congr fun e _ => ?_
  rw [decide_eq_true_iff, gives_settles]
  cases settles? e.time e.exchanged.op e.exchanged.answer <;> simp

theorem countP_settled (called : List Called) :
    (called.filter Called.settled).countP (fun c => c.Gives kind ∧ a ≤ c.time ∧ c.time ≤ b) =
      (given kind called).countP fun t => a ≤ t ∧ t ≤ b := by
  rw [given, List.countP_map, List.countP_filter, List.countP_filter]
  refine List.countP_congr fun c _ => ?_
  have settles (gives : c.Gives kind) : c.settled = true := by rw [Called.settled, gives.2]
  simp only [Bool.and_eq_true, decide_eq_true_iff, Function.comp_apply]
  exact ⟨fun h => ⟨h.1.2, h.1.1⟩, fun h => ⟨⟨h.2, h.1⟩, settles h.2⟩⟩

end Tokens

/-- However tasks share a key ring, its limiter stays sound. -/
theorem sound_reached {α : Type} {credentials : List Credential} {config : Config}
    {w : TaskSystem α}
    (reached : (tasks α).Reaches (ofCredentials credentials config) w) (kind : Credential.Kind) :
    w.state.limiter.Sound (config.limitFor kind) kind w.now := by
  obtain ⟨calls, ordered, limiter, -⟩ := recorded reached
  have metered := metered_answer (Metered.first (sound_ofCredentials credentials config kind 0))
    (Nat.zero_le w.now) ordered
  exact limiter ▸ metered.sound

/-- However tasks share a key ring, a bucket holds at least nothing and at most its capacity, and in no
span of time do they get more tokens of a kind than a full bucket holds and flow in. What they are told is
what the limiter replies to some calls in order; leaving out any calls that got no token of the kind, such
as all calls for other kinds and all that were refused or told to wait, does not change what the rest of
the calls for the kind are told. -/
theorem tokens_shared {α : Type} (credentials : List Credential) (config : Config)
    {w : TaskSystem α}
    (reached : (tasks α).Reaches (ofCredentials credentials config) w) (kind : Credential.Kind) :
    (∀ b, w.state.limiter.buckets.get kind = some b →
      0 ≤ b.tokens ∧ b.tokens ≤ (config.limitFor kind).atOnce) ∧
    (∀ a b, a ≤ b → (tokensWithin kind a b w.threads : Rat) ≤
      (config.limitFor kind).atOnce + Instant.secondsTo a b * (config.limitFor kind).perSecond) ∧
    ∃ calls, InOrder 0 w.now calls ∧
      let replies := (ofCredentials credentials config : KeyRing Rat).limiter.answer calls
      replies.2 = w.state.limiter ∧ (heard w.threads).Perm (replies.1.filter Called.settled) ∧
      ∀ kept, Thinned kind replies.1 kept →
        ((ofCredentials credentials config : KeyRing Rat).limiter.answer (kept.map Called.asked)).1.filter
          (fun c => c.call.kind = kind) = kept.filter fun c => c.call.kind = kind := by
  obtain ⟨calls, ordered, limiter, told⟩ := recorded reached
  have sound := sound_ofCredentials credentials config kind 0
  have metered := metered_answer (Metered.first sound) (Nat.zero_le w.now) ordered
  rw [limiter, List.nil_append] at metered
  refine ⟨fun b made => ?_, fun a b le => ?_, calls, ordered, limiter, told, fun kept thinned => ?_⟩
  · have bucket := (sound_reached reached kind).bucket b made
    exact ⟨bucket.nonneg, bucket.bounded⟩
  · rw [tokensWithin_eq, told.countP_eq, countP_settled]
    exact metered.within a b le
  · exact replies_thinned sound sound rfl ordered thinned

def zeroLimits : Config := { rateLimits := .const (some ⟨0, 0⟩) }

def twoTries : Program controls Unit :=
  .ask (.tryAcquire .anonymous) fun _ => .ask (.tryAcquire .anonymous) fun _ => .done ()

def takingTurns : TaskSystem Unit :=
  [0, 1, 0, 1].foldl (tasks Unit).moveOf
    ⟨0, ofCredentials [] zeroLimits, [.ofProgram twoTries 0, .ofProgram twoTries 0]⟩

theorem tokens_shared_takingTurns :
    (tasks Unit).Reaches (ofCredentials [] zeroLimits) takingTurns ∧
    tokensWithin .anonymous 0 0 takingTurns.threads = 1 ∧
    (takingTurns.threads.flatMap Thread.log).length = 4 ∧
    ((tokensWithin .anonymous 0 0 takingTurns.threads : Nat) : Rat) ≤
      (zeroLimits.limitFor .anonymous).atOnce +
        Instant.secondsTo 0 0 * (zeroLimits.limitFor .anonymous).perSecond ∧
    (zeroLimits.limitFor .anonymous).atOnce = 1 := by
  have first := Setting.Next.start (A := tasks Unit) (p := twoTries)
    (w := ⟨0, ofCredentials [] zeroLimits, []⟩) trivial
  have second := Setting.Next.start (A := tasks Unit) (p := twoTries)
    (w := ⟨0, ofCredentials [] zeroLimits, [.ofProgram twoTries 0]⟩) trivial
  have reached : (tasks Unit).Reaches (ofCredentials [] zeroLimits) takingTurns :=
    ⟨0, .head first (.head second (Setting.leads_moves _ _))⟩
  exact ⟨reached, by decide +kernel, by decide +kernel,
    (tokens_shared [] zeroLimits reached .anonymous).2.1 0 0 (Nat.le_refl 0), by decide +kernel⟩

end KeyRing

end MarketFeed
