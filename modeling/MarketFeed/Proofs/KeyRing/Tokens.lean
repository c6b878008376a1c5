import Mathlib.Algebra.Order.Field.Basic
import Mathlib.Data.Rat.Cast.Order
import Mathlib.Tactic.Linarith
import Mathlib.Tactic.Positivity
import MarketFeed.Proofs.KeyRing.Sessions
/-!
Tokens counted exactly. What was taken from a bucket since some time and what is left of it do not exceed
what it held then and what has flowed in. A bucket never holds more than its capacity, so this bounds what
is taken between any two points in time.
-/

set_option autoImplicit false
set_option relaxedAutoImplicit false

namespace MarketFeed

open Program Simulation

def Instant.secondsTo (s t : Instant) : Rat := ((t - s : Nat) : Rat) / (nanosPerSecond : Rat)

namespace RateLimit

def atOnce (limit : RateLimit) : Rat := (max limit.burst.toNat 1 : Nat)

def perSecond (limit : RateLimit) : Rat := (max limit.requestsPerMinute.toNat 1 : Nat) / 60

theorem perSecond_nonneg (limit : RateLimit) : 0 ≤ limit.perSecond := by
  unfold perSecond
  positivity

theorem atOnce_pos (limit : RateLimit) : 0 < limit.atOnce := by
  unfold atOnce
  exact_mod_cast Nat.lt_of_lt_of_le Nat.one_pos (Nat.le_max_right _ _)

end RateLimit

theorem Instant.secondsTo_nonneg (s t : Instant) : 0 ≤ Instant.secondsTo s t := by
  unfold secondsTo
  positivity

theorem Instant.secondsTo_add {r s t : Instant} (first : r ≤ s) (second : s ≤ t) :
    Instant.secondsTo r s + Instant.secondsTo s t = Instant.secondsTo r t := by
  have whole : (t - r : Nat) = (s - r) + (t - s) := by
    rw [Nat.add_comm]
    exact (Nat.sub_add_sub_cancel second first).symm
  unfold secondsTo
  rw [whole, Nat.cast_add]
  exact (add_div _ _ _).symm

theorem Quantity.least_eq (a b : Rat) : Quantity.least a b = min a b := by
  show (if decide (a ≤ b) = true then a else b) = min a b
  simp [min_def]

/-! ### One bucket -/

namespace TokenBucket

/-- What a bucket holds at a point in time. -/
def level (b : TokenBucket Rat) (now : Instant) : Rat := (b.refill now).tokens

structure Sound (limit : RateLimit) (now : Instant) (b : TokenBucket Rat) : Prop where
  rate : b.rate = limit.perSecond
  capacity : b.capacity = limit.atOnce
  past : b.updated ≤ now
  nonneg : 0 ≤ b.tokens
  bounded : b.tokens ≤ limit.atOnce

variable {limit : RateLimit} {b : TokenBucket Rat} {now later : Instant}

theorem level_eq (b : TokenBucket Rat) (now : Instant) :
    b.level now = min (b.tokens + Quantity.seconds (Instant.since now b.updated) * b.rate) b.capacity :=
  Quantity.least_eq _ _

theorem sound_full (limit : RateLimit) (now : Instant) : (full limit now).Sound limit now := by
  have pos := limit.atOnce_pos
  exact ⟨rfl, rfl, Nat.le_refl now, pos.le, le_refl _⟩

private theorem seconds_since_le (now later seen : Instant) :
    (Quantity.seconds (Instant.since later seen) : Rat) ≤
      Quantity.seconds (Instant.since now seen) + Instant.secondsTo now later := by
  have whole : (Instant.since later seen).nanos ≤ (Instant.since now seen).nanos + (later - now) := by
    unfold Instant.since
    rw [Duration.nanos_ofNanos, Duration.nanos_ofNanos]
    omega
  have counted : ((Instant.since later seen).nanos : Rat) ≤
      (Instant.since now seen).nanos + (later - now : Nat) := by exact_mod_cast whole
  show ((Instant.since later seen).nanos : Rat) / (nanosPerSecond : Rat) ≤
    ((Instant.since now seen).nanos : Rat) / (nanosPerSecond : Rat) + Instant.secondsTo now later
  unfold Instant.secondsTo
  rw [← add_div]
  gcongr

private theorem seconds_nonneg (d : Duration) : (0 : Rat) ≤ Quantity.seconds d := by
  show (0 : Rat) ≤ (d.nanos : Rat) / (nanosPerSecond : Rat)
  positivity

section Sound

variable (sound : b.Sound limit now)

include sound

theorem Sound.level_le : b.level now ≤ limit.atOnce := by
  rw [level_eq, sound.capacity]
  exact min_le_right _ _

theorem Sound.level_nonneg : 0 ≤ b.level now := by
  have flows : 0 ≤ Quantity.seconds (Instant.since now b.updated) * b.rate := by
    rw [sound.rate]
    exact mul_nonneg (seconds_nonneg _) limit.perSecond_nonneg
  rw [level_eq, sound.capacity]
  exact le_min (add_nonneg sound.nonneg flows) limit.atOnce_pos.le

theorem Sound.level_later (later : Instant) :
    b.level later ≤ b.level now + Instant.secondsTo now later * limit.perSecond := by
  have flows : Quantity.seconds (Instant.since later b.updated) * limit.perSecond ≤
      Quantity.seconds (Instant.since now b.updated) * limit.perSecond +
        Instant.secondsTo now later * limit.perSecond := by
    rw [← add_mul]
    exact mul_le_mul_of_nonneg_right (seconds_since_le now later b.updated) limit.perSecond_nonneg
  have more : 0 ≤ Instant.secondsTo now later * limit.perSecond :=
    mul_nonneg (Instant.secondsTo_nonneg _ _) limit.perSecond_nonneg
  rw [level_eq, level_eq, sound.rate, sound.capacity, ← min_add_add_right]
  refine min_le_min ?_ ?_ <;> linarith

theorem Sound.wait (le : now ≤ later) : b.Sound limit later :=
  { sound with past := Nat.le_trans sound.past le }

theorem Sound.refill : (b.refill now).Sound limit now :=
  ⟨sound.rate, sound.capacity, Nat.le_refl now, sound.level_nonneg, sound.level_le⟩

theorem Sound.level_seen (seen : b.updated = now) : b.level now = b.tokens := by
  have still : (Quantity.seconds (Instant.since now b.updated) : Rat) = 0 := by
    show ((Instant.since now b.updated).nanos : Rat) / (nanosPerSecond : Rat) = 0
    simp [Instant.since, Duration.nanos_ofNanos, seen]
  rw [level_eq, still, zero_mul, add_zero, sound.capacity]
  exact min_eq_left sound.bounded

theorem Sound.take :
    (b.take now).2.Sound limit now ∧
      (b.take now).2.level now + (if (b.take now).1 then 1 else 0) = b.level now := by
  have refilled := sound.refill
  unfold TokenBucket.take
  dsimp only
  split
  · rename_i there
    have enough : 1 ≤ (b.refill now).tokens := of_decide_eq_true there
    have left : TokenBucket.Sound limit now
        { b.refill now with tokens := (b.refill now).tokens - 1 } := by
      refine ⟨sound.rate, sound.capacity, Nat.le_refl now, ?_, ?_⟩
      · exact sub_nonneg.mpr enough
      · have := refilled.bounded
        show (b.refill now).tokens - 1 ≤ limit.atOnce
        linarith
    refine ⟨left, ?_⟩
    have seen := left.level_seen rfl
    rw [if_pos rfl]
    exact (congrArg (· + 1) seen).trans (sub_add_cancel _ _)
  · refine ⟨refilled, ?_⟩
    rw [if_neg Bool.false_ne_true, add_zero]
    exact refilled.level_seen rfl

end Sound

theorem waitTime_snd (b : TokenBucket Rat) (now : Instant) : (b.waitTime now).2 = b.refill now := by
  unfold waitTime
  dsimp only
  split <;> rfl

end TokenBucket

/-! ### One limiter -/

namespace KeyRing

def Config.limitFor (config : Config) (kind : Credential.Kind) : RateLimit :=
  (config.rateLimits.get kind).getD (RateLimit.standard kind)

end KeyRing

namespace Limiter

def level (l : Limiter Rat) (kind : Credential.Kind) (now : Instant) : Rat :=
  (l.bucket now kind).level now

structure Sound (limit : RateLimit) (kind : Credential.Kind) (now : Instant) (l : Limiter Rat) : Prop where
  limited : l.limitFor kind = limit
  bucket : ∀ b, l.buckets.get kind = some b → b.Sound limit now

variable {limit : RateLimit} {kind : Credential.Kind} {now later : Instant} {l : Limiter Rat}

theorem sound_ofCredentials (credentials : List Credential) (config : KeyRing.Config)
    (kind : Credential.Kind) (now : Instant) :
    (KeyRing.ofCredentials credentials config : KeyRing Rat).limiter.Sound (config.limitFor kind) kind
      now := by
  refine ⟨rfl, fun b made => ?_⟩
  cases kind <;> cases made

section Sound

variable (sound : l.Sound limit kind now)

include sound

theorem Sound.bucket_sound : (l.bucket now kind).Sound limit now := by
  unfold Limiter.bucket
  rw [sound.limited]
  cases made : l.buckets.get kind with
  | none => exact TokenBucket.sound_full limit now
  | some b => exact sound.bucket b made

theorem Sound.wait (le : now ≤ later) : l.Sound limit kind later :=
  ⟨sound.limited, fun b made => (sound.bucket b made).wait le⟩

theorem Sound.level_le : l.level kind now ≤ limit.atOnce := sound.bucket_sound.level_le

theorem Sound.level_nonneg : 0 ≤ l.level kind now := sound.bucket_sound.level_nonneg

theorem Sound.level_later (le : now ≤ later) :
    l.level kind later ≤ l.level kind now + Instant.secondsTo now later * limit.perSecond := by
  cases made : l.buckets.get kind with
  | none =>
    have full : l.level kind now = limit.atOnce := by
      unfold level Limiter.bucket
      rw [sound.limited, made]
      exact (TokenBucket.sound_full limit now).level_seen rfl
    have most := (sound.wait le).level_le
    have more : 0 ≤ Instant.secondsTo now later * limit.perSecond :=
      mul_nonneg (Instant.secondsTo_nonneg _ _) limit.perSecond_nonneg
    rw [full]
    linarith
  | some b =>
    unfold level Limiter.bucket
    rw [made]
    exact (sound.bucket b made).level_later later

theorem Sound.withBucket {b : TokenBucket Rat} (fresh : b.Sound limit now) :
    (l.withBucket kind b).Sound limit kind now ∧ (l.withBucket kind b).level kind now = b.level now := by
  have there : (l.withBucket kind b).buckets.get kind = some b :=
    (Credential.PerKind.get_set ..).trans (if_pos rfl)
  refine ⟨⟨sound.limited, fun b' made => ?_⟩, ?_⟩
  · cases there.symm.trans made
    exact fresh
  · unfold level Limiter.bucket
    rw [there]
    rfl

theorem Sound.other {kind' : Credential.Kind} (other : kind ≠ kind') (b : TokenBucket Rat) :
    (l.withBucket kind' b).Sound limit kind now ∧ (l.withBucket kind' b).level kind now = l.level kind now := by
  have there : (l.withBucket kind' b).buckets.get kind = l.buckets.get kind :=
    (Credential.PerKind.get_set ..).trans (if_neg other)
  refine ⟨⟨sound.limited, fun b' made => sound.bucket b' (there.symm.trans made)⟩, ?_⟩
  unfold level Limiter.bucket
  rw [there]
  rfl

theorem Sound.take (kind' : Credential.Kind) :
    (l.take now kind').2.Sound limit kind now ∧
      (l.take now kind').2.level kind now + (if kind' = kind ∧ (l.take now kind').1 then 1 else 0) =
        l.level kind now := by
  by_cases same : kind' = kind
  · subst same
    obtain ⟨taken, spent⟩ := sound.bucket_sound.take
    obtain ⟨kept, level⟩ := sound.withBucket taken
    refine ⟨kept, ?_⟩
    simp only [true_and]
    rw [← show _ = l.level kind' now from spent]
    exact congrArg (· + _) level
  · obtain ⟨kept, level⟩ := sound.other (Ne.symm same) ((l.bucket now kind').take now).2
    refine ⟨kept, ?_⟩
    rw [if_neg (fun given => same given.1), add_zero]
    exact level

theorem Sound.attempt (kind' : Credential.Kind) :
    (l.attempt now kind').2.Sound limit kind now ∧
      (l.attempt now kind').2.level kind now +
        (if kind' = kind ∧ (l.attempt now kind').1 = none then 1 else 0) = l.level kind now := by
  by_cases same : kind' = kind
  · subst same
    obtain ⟨taken, spent⟩ := sound.bucket_sound.take
    unfold Limiter.attempt
    dsimp only
    split
    · rename_i given
      rw [given, if_pos rfl] at spent
      obtain ⟨kept, level⟩ := sound.withBucket taken
      refine ⟨kept, ?_⟩
      rw [if_pos ⟨rfl, rfl⟩, level]
      exact spent
    · rename_i refused
      rw [if_neg refused, add_zero] at spent
      rw [TokenBucket.waitTime_snd]
      obtain ⟨kept, level⟩ := sound.withBucket taken.refill
      refine ⟨kept, ?_⟩
      rw [if_neg (by simp), add_zero, level, taken.refill.level_seen rfl]
      exact spent
  · unfold Limiter.attempt
    dsimp only
    split <;>
    · rw [if_neg (fun given => same given.1), add_zero]
      exact sound.other (Ne.symm same) _

end Sound

end Limiter

namespace KeyRing

/-! ### Tokens over time -/

/-- The times up to `now` at which tokens of a kind were given: since any time so many that, with what is
left, they are no more than a full bucket and what has flowed in. -/
structure Metered (limit : RateLimit) (kind : Credential.Kind) (now : Instant) (l : Limiter Rat)
    (times : List Instant) : Prop where
  sound : l.Sound limit kind now
  past : ∀ t ∈ times, t ≤ now
  since : ∀ a, a ≤ now → (times.countP (fun t => a ≤ t) : Rat) + l.level kind now ≤
    limit.atOnce + Instant.secondsTo a now * limit.perSecond
  within : ∀ a b, a ≤ b → (times.countP (fun t => a ≤ t ∧ t ≤ b) : Rat) ≤
    limit.atOnce + Instant.secondsTo a b * limit.perSecond

def token? : (op : controls.Op) → controls.Answer op → Option Credential.Kind
  | .acquire kind, Signal.elapsed => some kind
  | .acquire _, Signal.cancelled => none
  | .tryAcquire kind, true => some kind
  | .tryAcquire _, false => none
  | .isCancelled, _ | .markFailed _, _ | .markSucceeded _, _ => none

section Metered

variable {limit : RateLimit} {kind : Credential.Kind} {now later : Instant} {l l' : Limiter Rat}
  {times : List Instant}

private theorem flow_nonneg (limit : RateLimit) (s t : Instant) :
    0 ≤ Instant.secondsTo s t * limit.perSecond :=
  mul_nonneg (Instant.secondsTo_nonneg s t) limit.perSecond_nonneg

theorem Metered.first (sound : l.Sound limit kind now) : Metered limit kind now l [] := by
  have pos := limit.atOnce_pos
  refine ⟨sound, nofun, ?_, ?_⟩
  · intro a _
    have := flow_nonneg limit a now
    have := sound.level_le
    simp only [List.countP_nil, Nat.cast_zero, zero_add]
    linarith
  · intro a b _
    have := flow_nonneg limit a b
    simp only [List.countP_nil, Nat.cast_zero]
    linarith

theorem Metered.wait (metered : Metered limit kind now l times) (le : now ≤ later) :
    Metered limit kind later l times := by
  refine ⟨metered.sound.wait le, fun t member => Nat.le_trans (metered.past t member) le, ?_,
    metered.within⟩
  intro a before
  -- a window that begins after the last token has only what the bucket holds
  rcases Nat.lt_or_ge now a with late | early
  · have none_since : times.countP (fun t => a ≤ t) = 0 := by
      rw [List.countP_eq_zero]
      intro t member
      simpa using Nat.lt_of_le_of_lt (metered.past t member) late
    have most := (metered.sound.wait le).level_le
    have := flow_nonneg limit a later
    rw [none_since, Nat.cast_zero, zero_add]
    linarith
  · have sofar := metered.since a early
    have flowed := metered.sound.level_later le
    rw [← Instant.secondsTo_add early le, add_mul]
    linarith

theorem Metered.step {given : Prop} [Decidable given] (metered : Metered limit kind now l times)
    (kept : l'.Sound limit kind now)
    (spent : l'.level kind now + (if given then 1 else 0) = l.level kind now) :
    Metered limit kind now l' (times ++ if given then [now] else []) := by
  by_cases gave : given
  · rw [if_pos gave] at spent ⊢
    refine ⟨kept, ?_, ?_, ?_⟩
    · intro t member
      rcases List.mem_append.mp member with old | new
      · exact metered.past t old
      · exact Nat.le_of_eq (List.mem_singleton.mp new)
    · intro a before
      have sofar := metered.since a before
      rw [List.countP_append, List.countP_singleton, if_pos (by simpa using before)]
      push_cast
      linarith
    · intro a b le
      have sofar := metered.within a b le
      rw [List.countP_append, List.countP_singleton]
      by_cases inside : a ≤ now ∧ now ≤ b
      · -- the window ends with this token: it is one that has been open since `a`
        rw [if_pos (by simpa using inside)]
        have counted : times.countP (fun t => a ≤ t ∧ t ≤ b) ≤ times.countP (fun t => a ≤ t) :=
          List.countP_mono_left fun t _ => by simp +contextual
        have counted_rat : (times.countP (fun t => a ≤ t ∧ t ≤ b) : Rat) ≤
            times.countP (fun t => a ≤ t) := by exact_mod_cast counted
        have left := kept.level_nonneg
        have since := metered.since a inside.1
        have after := flow_nonneg limit now b
        rw [← Instant.secondsTo_add inside.1 inside.2, add_mul]
        push_cast
        linarith
      · rw [if_neg (by simpa using inside)]
        simpa using sofar
  · rw [if_neg gave, add_zero] at spent
    rw [if_neg gave, List.append_nil]
    refine ⟨kept, metered.past, ?_, metered.within⟩
    intro a before
    rw [spent]
    exact metered.since a before

variable {k k' : KeyRing Rat}

private def granted (kind : Credential.Kind) : Option Signal → Option Credential.Kind
  | some .elapsed => some kind
  | _ => none

private theorem granted_some {kind' : Credential.Kind} (r : controls.Answer (.acquire kind')) :
    granted kind' (some r) = token? (.acquire kind') r := by
  cases r <;> rfl

private theorem Metered.acquire (metered : Metered limit kind now k.limiter times) (cancelled : Bool)
    (kind' : Credential.Kind) :
    Metered limit kind now (Keys.acquire now cancelled kind' k).2.limiter
      (times ++ if granted kind' (Keys.acquire now cancelled kind' k).1.answer? = some kind then [now]
        else []) := by
  obtain ⟨kept, spent⟩ := metered.sound.attempt kind'
  have gives : granted kind' (Keys.acquire now cancelled kind' k).1.answer? = some kind ↔
      kind' = kind ∧ (k.limiter.attempt now kind').1 = none := by
    cases waits : (k.limiter.attempt now kind').1 with
    | none => simp [Keys.acquire, waits, Step.answer?, granted]
    | some d => cases cancelled <;> simp [Keys.acquire, waits, Step.answer?, granted]
  rw [acquire_limiter]
  simp only [gives]
  exact metered.step kept spent

private theorem Metered.resume (metered : Metered limit kind now k.limiter times) (cancelled : Bool)
    (kind' : Credential.Kind) :
    Metered limit kind now (Keys.resume now cancelled (.acquire kind') k).2.limiter
      (times ++ if granted kind' (Keys.resume now cancelled (.acquire kind') k).1.answer? = some kind
        then [now] else []) := by
  cases cancelled with
  | true =>
    have unchanged : times ++ (if granted kind' (some .cancelled) = some kind then [now] else []) =
        times := by simp [granted]
    exact unchanged.symm ▸ metered
  | false => exact metered.acquire false kind'

private theorem Metered.resumes {kind' : Credential.Kind} {r : controls.Answer (.acquire kind')}
    (metered : Metered limit kind now k.limiter times)
    (resumes : Keys.controls.Resumes (.acquire kind') now k r later k') :
    Metered limit kind later k'.limiter
      (times ++ if token? (.acquire kind') r = some kind then [later] else []) := by
  induction resumes with
  | @last now later k r cancelled passed given =>
    have resumed := (metered.wait passed).resume cancelled kind'
    have answered : granted kind' (Keys.resume later cancelled (.acquire kind') k).1.answer? =
        token? (.acquire kind') r := (congrArg (granted kind') given).trans (granted_some r)
    rw [answered] at resumed
    exact resumed
  | @again now later ended k k' r until_ cancelled passed waits rest ih =>
    have resumed := (metered.wait passed).resume cancelled kind'
    have waiting : (Keys.resume later cancelled (.acquire kind') k).1 = .wait until_ := waits
    rw [waiting, if_neg nofun, List.append_nil] at resumed
    exact ih resumed

/-- However a key ring serves a request, what it gives is accounted for. -/
theorem Metered.served {op : controls.Op} {r : controls.Answer op}
    (metered : Metered limit kind now k.limiter times)
    (served : Keys.controls.service op now k r later k') :
    Metered limit kind later k'.limiter (times ++ if token? op r = some kind then [later] else []) := by
  have nothing : times ++ (if (none : Option Credential.Kind) = some kind then [later] else []) = times := by
    simp
  cases op with
  | isCancelled =>
    obtain ⟨rfl, rfl⟩ := served_isCancelled served
    exact nothing.symm ▸ metered
  | markFailed secret =>
    obtain ⟨rfl, rfl⟩ := served_markFailed served
    exact nothing.symm ▸ metered
  | markSucceeded secret =>
    obtain ⟨rfl, rfl⟩ := served_markSucceeded served
    exact nothing.symm ▸ metered
  | tryAcquire kind' =>
    obtain ⟨rfl, given, rfl⟩ := served_tryAcquire served
    obtain ⟨kept, spent⟩ := metered.sound.take kind'
    have gives : token? (.tryAcquire kind') r = some kind ↔
        kind' = kind ∧ (k.limiter.take later kind').1 = true := by
      rw [given]
      cases (k.limiter.take later kind').1 <;> simp [token?]
    simp only [gives]
    exact metered.step kept spent
  | acquire kind' =>
    cases served with
    | atOnce cancelled given =>
      have asked := metered.acquire cancelled kind'
      have answered : granted kind' (Keys.acquire now cancelled kind' k).1.answer? =
          token? (.acquire kind') r := (congrArg (granted kind') given).trans (granted_some r)
      rw [answered] at asked
      exact asked
    | @waited _ _ _ until_ cancelled waits rest =>
      have asked := metered.acquire cancelled kind'
      have waiting : (Keys.acquire now cancelled kind' k).1 = .wait until_ := waits
      rw [waiting, if_neg nofun, List.append_nil] at asked
      exact asked.resumes rest

end Metered

end KeyRing

end MarketFeed
