import Mathlib.Tactic.NormNum
import MarketFeed.Proofs.KeyRing.Tokens
/-!
Levels of token buckets. What a bucket holds at a point in time tells all there is to tell of it: what it
will hold later without further calls, and what the limiter replies to a call.
-/

set_option autoImplicit false
set_option relaxedAutoImplicit false

namespace MarketFeed

namespace RateLimit

variable (limit : RateLimit)

theorem perSecond_ge : 1 / 60 ≤ limit.perSecond := by
  unfold perSecond
  gcongr
  exact_mod_cast Nat.le_max_right _ _

theorem one_le_atOnce : 1 ≤ limit.atOnce := by
  unfold atOnce
  exact_mod_cast Nat.le_max_right _ _

/-- How long to wait at a level before another attempt, if there is no whole token. -/
def pause? (level : Rat) : Option Duration :=
  if 1 ≤ level then none
  else some ((Quantity.nearestSpan ((1 - level) / limit.perSecond)).longer Limiter.shortestPause)

theorem atOnce_le_flow :
    limit.atOnce ≤ (Duration.maxNanos : Rat) / (nanosPerSecond : Rat) * limit.perSecond := by
  have most : limit.atOnce ≤ (UInt32.size : Nat) := by
    unfold atOnce
    exact_mod_cast Nat.max_le.mpr ⟨limit.burst.toNat_lt_size.le, by decide⟩
  have long : ((UInt32.size : Nat) : Rat) * 60 ≤ (Duration.maxNanos : Rat) / (nanosPerSecond : Rat) := by
    norm_num [Duration.maxNanos, nanosPerSecond, UInt32.size, UInt64.size]
  have rate := limit.perSecond_ge
  have size : (0 : Rat) ≤ (UInt32.size : Nat) := Nat.cast_nonneg _
  calc limit.atOnce ≤ (UInt32.size : Nat) := most
    _ = (UInt32.size : Nat) * 60 * (1 / 60) := by rw [mul_assoc]; norm_num
    _ ≤ (Duration.maxNanos : Rat) / (nanosPerSecond : Rat) * limit.perSecond := by gcongr

end RateLimit

namespace TokenBucket

variable {limit : RateLimit} {b : TokenBucket Rat} {now later : Instant}

private theorem seconds_since_eq {seen : Instant} (past : seen ≤ now) (le : now ≤ later)
    (uncut : later - seen ≤ Duration.maxNanos) :
    (Quantity.seconds (Instant.since later seen) : Rat) =
      Quantity.seconds (Instant.since now seen) + Instant.secondsTo now later := by
  have whole : (Instant.since later seen).nanos = (Instant.since now seen).nanos + (later - now) := by
    have within : now - seen ≤ Duration.maxNanos := Nat.le_trans (Nat.sub_le_sub_right le seen) uncut
    unfold Instant.since
    rw [Duration.nanos_ofNanos, Duration.nanos_ofNanos, Nat.min_eq_left uncut, Nat.min_eq_left within,
      Nat.add_comm]
    exact (Nat.sub_add_sub_cancel le past).symm
  show ((Instant.since later seen).nanos : Rat) / (nanosPerSecond : Rat) =
    ((Instant.since now seen).nanos : Rat) / (nanosPerSecond : Rat) + Instant.secondsTo now later
  rw [whole, Nat.cast_add]
  exact add_div _ _ _

/-- What a bucket holds grows with its rate until the bucket is full. -/
theorem Sound.level_from (sound : b.Sound limit now) (le : now ≤ later) :
    b.level later = min (b.level now + Instant.secondsTo now later * limit.perSecond) limit.atOnce := by
  have flow : 0 ≤ Instant.secondsTo now later * limit.perSecond :=
    mul_nonneg (Instant.secondsTo_nonneg _ _) limit.perSecond_nonneg
  rcases Nat.le_total (later - b.updated) Duration.maxNanos with uncut | cut
  · rw [level_eq, level_eq, sound.rate, sound.capacity, seconds_since_eq sound.past le uncut, add_mul,
      ← min_add_add_right, min_assoc, min_eq_right (a := limit.atOnce + _) (by linarith), add_assoc]
  · -- the bucket is full long before the longest span is over
    have longest : (Quantity.seconds (Instant.since later b.updated) : Rat) =
        (Duration.maxNanos : Rat) / (nanosPerSecond : Rat) := by
      show ((Instant.since later b.updated).nanos : Rat) / (nanosPerSecond : Rat) = _
      rw [Instant.since, Duration.nanos_ofNanos, Nat.min_eq_right cut]
    have full : b.level later = limit.atOnce := by
      rw [level_eq, sound.rate, sound.capacity, longest]
      refine min_eq_right ?_
      have := sound.nonneg
      have := limit.atOnce_le_flow
      linarith
    have grows := sound.level_later later
    rw [full] at grows ⊢
    exact (min_eq_right grows).symm

theorem hasToken_refill (b : TokenBucket Rat) (now : Instant) :
    (b.refill now).hasToken = decide (1 ≤ b.level now) := by
  have there : (b.refill now).hasToken = decide (((1 : Nat) : Rat) ≤ b.level now) := rfl
  rw [there, Nat.cast_one]

theorem take_of_whole (whole : 1 ≤ b.level now) : (b.take now).1 = true := by
  unfold take
  dsimp only
  rw [hasToken_refill, if_pos (decide_eq_true whole)]

theorem take_of_short (short : ¬ 1 ≤ b.level now) : b.take now = (false, b.refill now) := by
  unfold take
  dsimp only
  rw [hasToken_refill, if_neg (by simpa using short)]

theorem Sound.level_refill (sound : b.Sound limit now) : (b.refill now).level now = b.level now :=
  sound.refill.level_seen rfl

theorem Sound.waitTime_eq (sound : b.Sound limit now) (short : ¬ 1 ≤ b.level now) :
    (b.waitTime now).1 = Quantity.nearestSpan ((1 - b.level now) / limit.perSecond) := by
  unfold waitTime
  dsimp only
  rw [hasToken_refill, if_neg (by simpa using short)]
  show Quantity.nearestSpan ((((1 : Nat) : Rat) - b.level now) / b.rate) = _
  rw [Nat.cast_one, sound.rate]

end TokenBucket

namespace Limiter

variable {limit : RateLimit} {kind : Credential.Kind} {now later : Instant} {l l' : Limiter Rat}

theorem Sound.level_unmade (sound : l.Sound limit kind now) (unmade : l.buckets.get kind = none) :
    l.level kind now = limit.atOnce := by
  unfold level Limiter.bucket
  rw [sound.limited, unmade]
  exact (TokenBucket.sound_full limit now).level_seen rfl

theorem Sound.level_from (sound : l.Sound limit kind now) (le : now ≤ later) :
    l.level kind later =
      min (l.level kind now + Instant.secondsTo now later * limit.perSecond) limit.atOnce := by
  cases made : l.buckets.get kind with
  | none =>
    have flow : 0 ≤ Instant.secondsTo now later * limit.perSecond :=
      mul_nonneg (Instant.secondsTo_nonneg _ _) limit.perSecond_nonneg
    rw [sound.level_unmade made, (sound.wait le).level_unmade made, min_eq_right (by linarith)]
  | some b =>
    unfold level Limiter.bucket
    rw [made]
    exact (sound.bucket b made).level_from le

theorem take_eq (l : Limiter Rat) (now : Instant) (kind : Credential.Kind) :
    (l.take now kind).1 = decide (1 ≤ l.level kind now) := by
  show ((l.bucket now kind).take now).1 = decide (1 ≤ (l.bucket now kind).level now)
  by_cases whole : 1 ≤ (l.bucket now kind).level now
  · rw [TokenBucket.take_of_whole whole, decide_eq_true whole]
  · rw [TokenBucket.take_of_short whole, decide_eq_false whole]

theorem Sound.attempt_eq (sound : l.Sound limit kind now) :
    (l.attempt now kind).1 = limit.pause? (l.level kind now) := by
  have refilled := sound.bucket_sound.refill
  have same : ((l.bucket now kind).refill now).level now = l.level kind now :=
    sound.bucket_sound.level_refill
  unfold Limiter.attempt RateLimit.pause?
  dsimp only
  by_cases whole : 1 ≤ l.level kind now
  · rw [TokenBucket.take_of_whole whole, if_pos rfl, if_pos whole]
  · rw [TokenBucket.take_of_short whole, if_neg Bool.false_ne_true, if_neg whole,
      refilled.waitTime_eq (by rwa [same]), same]

end Limiter

end MarketFeed
