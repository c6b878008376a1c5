import MarketFeed.Exchange.Backoff
/-!
Pauses before further attempts, in bounds. A pause is never shorter than its steady part and at most half
of that longer, and while the steady part still doubles no pause is longer than one before the next attempt.
Computed in words of fixed width it is the same pause: no step leaves its width.
-/

set_option autoImplicit false
set_option relaxedAutoImplicit false

namespace MarketFeed

/-! ### Spans in words -/

def word? (size n : Nat) : Option Nat := if n < size then some n else none

theorem word?_of_lt {size n : Nat} (fits : n < size) : word? size n = some n := if_pos fits

theorem word?_of_le {size n : Nat} (beyond : size ≤ n) : word? size n = none :=
  if_neg (Nat.not_lt.mpr beyond)

/-- A span in words: whole seconds in 64 bits, and the nanoseconds beside them in 32 bits. -/
structure SpanWords where
  seconds : Nat
  nanos : Nat
  deriving DecidableEq

namespace SpanWords

def ofSpan (d : Duration) : SpanWords := ⟨d.nanos / nanosPerSecond, d.nanos % nanosPerSecond⟩

/-- Seconds and nanoseconds, of which the latter may make up further seconds; the longest span if the
seconds are too many. -/
def carry? (seconds nanos : Nat) : Option SpanWords := do
  let rest ← word? UInt32.size (nanos % nanosPerSecond)
  match (word? UInt64.size seconds).bind fun s =>
      word? UInt64.size (s + nanos / nanosPerSecond) with
  | some s => return ⟨s, rest⟩
  | none => return ofSpan .longest

def scale? (w : SpanWords) (k : Nat) : Option SpanWords := do
  let nanos ← word? UInt64.size (w.nanos * k)
  carry? (w.seconds * k) nanos

def add? (v w : SpanWords) : Option SpanWords := do
  let nanos ← word? UInt32.size (v.nanos + w.nanos)
  carry? (v.seconds + w.seconds) nanos

def millis? (w : SpanWords) : Option Nat := do
  let whole ← word? (UInt64.size * UInt64.size) (w.seconds * 1000)
  word? (UInt64.size * UInt64.size) (whole + w.nanos / nanosPerMilli)

def ofMillis? (n : Nat) : Option SpanWords := do
  let seconds ← word? UInt64.size (n / 1000)
  let nanos ← word? UInt32.size (n % 1000 * nanosPerMilli)
  return ⟨seconds, nanos⟩

theorem carry?_eq (seconds nanos : Nat) :
    carry? seconds nanos = some (ofSpan (.ofNanos (nanosPerSecond * seconds + nanos))) := by
  have rest : nanos % nanosPerSecond < UInt32.size := by unfold nanosPerSecond UInt32.size; omega
  rw [carry?, word?_of_lt rest]
  by_cases fits : seconds + nanos / nanosPerSecond < UInt64.size
  · have whole : seconds < UInt64.size := Nat.lt_of_le_of_lt (Nat.le_add_right _ _) fits
    have uncut : (Duration.ofNanos (nanosPerSecond * seconds + nanos)).nanos =
        nanosPerSecond * seconds + nanos := by
      refine Nat.min_eq_left ?_
      unfold Duration.maxNanos nanosPerSecond UInt64.size at *
      omega
    simp only [word?_of_lt whole, Option.bind_some, word?_of_lt fits, ofSpan, uncut,
      Nat.mul_add_div (by decide : 0 < nanosPerSecond), Nat.mul_add_mod]
    rfl
  · have beyond : (word? UInt64.size seconds).bind (fun s =>
        word? UInt64.size (s + nanos / nanosPerSecond)) = none := by
      by_cases whole : seconds < UInt64.size
      · rw [word?_of_lt whole]
        exact word?_of_le (Nat.not_lt.mp fits)
      · rw [word?_of_le (Nat.not_lt.mp whole)]
        rfl
    have longest : Duration.ofNanos (nanosPerSecond * seconds + nanos) = .longest := by
      refine Duration.ext_nanos (Nat.min_eq_right ?_)
      unfold Duration.maxNanos nanosPerSecond UInt64.size at *
      omega
    rw [beyond, longest]
    rfl

section Exact

variable {d e : Duration}

theorem scale?_ofSpan {k : Nat} (small : k ≤ Nat.pow 2 16) :
    (ofSpan d).scale? k = some (ofSpan (d.scale k)) := by
  have below : d.nanos % nanosPerSecond ≤ nanosPerSecond - 1 := by unfold nanosPerSecond; omega
  have product : d.nanos % nanosPerSecond * k < UInt64.size :=
    Nat.lt_of_le_of_lt (Nat.mul_le_mul below small) (by decide)
  have total : nanosPerSecond * (d.nanos / nanosPerSecond * k) + d.nanos % nanosPerSecond * k =
      d.nanos * k := by
    rw [← Nat.mul_assoc, ← Nat.add_mul, Nat.div_add_mod]
  show (word? UInt64.size (d.nanos % nanosPerSecond * k)).bind
    (carry? (d.nanos / nanosPerSecond * k)) = _
  rw [word?_of_lt product, Option.bind_some, carry?_eq, total]
  rfl

theorem add?_ofSpan : (ofSpan d).add? (ofSpan e) = some (ofSpan (d.add e)) := by
  have sum : d.nanos % nanosPerSecond + e.nanos % nanosPerSecond < UInt32.size := by
    unfold nanosPerSecond UInt32.size
    omega
  have total : nanosPerSecond * (d.nanos / nanosPerSecond + e.nanos / nanosPerSecond) +
      (d.nanos % nanosPerSecond + e.nanos % nanosPerSecond) = d.nanos + e.nanos := by
    unfold nanosPerSecond
    omega
  show (word? UInt32.size (d.nanos % nanosPerSecond + e.nanos % nanosPerSecond)).bind
    (carry? (d.nanos / nanosPerSecond + e.nanos / nanosPerSecond)) = _
  rw [word?_of_lt sum, Option.bind_some, carry?_eq, total]
  rfl

theorem millis?_ofSpan : (ofSpan d).millis? = some d.wholeMillis := by
  have bounded := d.nanos_lt
  have whole : d.nanos / nanosPerSecond * 1000 < UInt64.size * UInt64.size := by
    unfold nanosPerSecond UInt64.size at *
    omega
  have total : d.nanos / nanosPerSecond * 1000 + d.nanos % nanosPerSecond / nanosPerMilli =
      d.wholeMillis := by
    unfold Duration.wholeMillis nanosPerSecond nanosPerMilli
    omega
  have fits : d.wholeMillis < UInt64.size * UInt64.size := by
    unfold Duration.wholeMillis nanosPerMilli nanosPerSecond UInt64.size at *
    omega
  show (word? _ (d.nanos / nanosPerSecond * 1000)).bind
    (fun whole => word? _ (whole + d.nanos % nanosPerSecond / nanosPerMilli)) = _
  rw [word?_of_lt whole, Option.bind_some, total, word?_of_lt fits]

theorem ofMillis?_eq {n : Nat} (fits : n < UInt64.size) :
    ofMillis? n = some (ofSpan (.ofMillis n)) := by
  have seconds : n / 1000 < UInt64.size := Nat.lt_of_le_of_lt (Nat.div_le_self _ _) fits
  have nanos : n % 1000 * nanosPerMilli < UInt32.size := by
    unfold nanosPerMilli UInt32.size
    omega
  rw [ofMillis?, word?_of_lt seconds, word?_of_lt nanos, ofSpan, Duration.nanos_ofMillis fits]
  refine congrArg some ?_
  unfold nanosPerSecond nanosPerMilli
  congr 1 <;> omega

end Exact

end SpanWords

namespace Exchange.Backoff

/-- The pause before an attempt, computed step by step in words: the attempt, of 32 bits, less one, the
factor, of 32 bits, the steady part, its milliseconds, half of them cut to 64 bits, and the random part
drawn up to there. Nothing if a step does not fit its word, or if more was drawn. -/
def delay? (base : SpanWords) (attempt drawn : Nat) : Option SpanWords := do
  let attempt ← word? UInt32.size attempt
  let earlier ← if 1 ≤ attempt then some (attempt - 1) else none
  let factor ← word? UInt32.size (1 <<< min earlier maxDoublings)
  let steady ← base.scale? factor
  let millis ← steady.millis?
  let drawn ← if drawn ≤ min (millis / 2) (UInt64.size - 1) then some drawn else none
  let jitter ← SpanWords.ofMillis? drawn
  steady.add? jitter

variable {base : Duration} {attempt drawn : Nat}

theorem steady_nanos (base : Duration) (attempt : Nat) :
    (steady base attempt).nanos =
      min (base.nanos * Nat.pow 2 (min (attempt - 1) maxDoublings)) Duration.maxNanos := rfl

theorem lt_of_le_jitterBound (may : drawn ≤ jitterBound base attempt) : drawn < UInt64.size := by
  have cut : jitterBound base attempt ≤ UInt64.size - 1 := Nat.min_le_right _ _
  unfold UInt64.size at *
  omega

theorem jitter_le_half (may : drawn ≤ jitterBound base attempt) :
    drawn * nanosPerMilli ≤ (steady base attempt).nanos / 2 := by
  have half : drawn ≤ (steady base attempt).nanos / nanosPerMilli / 2 :=
    Nat.le_trans may (Nat.min_le_left _ _)
  unfold nanosPerMilli at *
  omega

theorem delay_nanos (later : 1 ≤ attempt) (may : drawn ≤ jitterBound base attempt) :
    (delay base attempt drawn).nanos =
      min ((steady base attempt).nanos + drawn * nanosPerMilli) Duration.maxNanos := by
  rw [delay, if_neg (Nat.ne_of_gt later), Nat.min_eq_left may, Duration.add,
    Duration.nanos_ofMillis (lt_of_le_jitterBound may), Duration.nanos_ofNanos]

theorem steady_le_delay (later : 1 ≤ attempt) (may : drawn ≤ jitterBound base attempt) :
    (steady base attempt).nanos ≤ (delay base attempt drawn).nanos := by
  rw [delay_nanos later may]
  exact Nat.le_min.mpr ⟨Nat.le_add_right _ _, (steady base attempt).nanos_le_max⟩

theorem delay_le_half_longer (later : 1 ≤ attempt) (may : drawn ≤ jitterBound base attempt) :
    (delay base attempt drawn).nanos ≤
      min ((steady base attempt).nanos + (steady base attempt).nanos / 2) Duration.maxNanos := by
  rw [delay_nanos later may]
  have half := jitter_le_half may
  omega

/-- As long as there are doublings left, the steady part of the next attempt is at least half as long
again, or the longest span. -/
theorem half_longer_le_next (later : 1 ≤ attempt) (doubling : attempt ≤ maxDoublings) :
    min ((steady base attempt).nanos + (steady base attempt).nanos / 2) Duration.maxNanos ≤
      (steady base (attempt + 1)).nanos := by
  obtain ⟨before, rfl⟩ : ∃ before, attempt = before + 1 := ⟨attempt - 1, by omega⟩
  have doubled : base.nanos * Nat.pow 2 (before + 1) = base.nanos * Nat.pow 2 before * 2 := by
    rw [Nat.pow_eq, Nat.pow_succ, Nat.mul_assoc]
    rfl
  rw [steady_nanos, steady_nanos, Nat.add_sub_cancel, Nat.add_sub_cancel, Nat.min_eq_left doubling,
    Nat.min_eq_left (Nat.le_of_succ_le doubling), doubled]
  omega

/-- Computed in words, the pause is the same; every step fits. -/
theorem delay?_eq (later : 1 ≤ attempt) (counted : attempt < UInt32.size)
    (may : drawn ≤ jitterBound base attempt) :
    delay? (.ofSpan base) attempt drawn = some (.ofSpan (delay base attempt drawn)) := by
  have capped : min (attempt - 1) maxDoublings ≤ 16 := Nat.min_le_right _ _
  have small : 1 <<< min (attempt - 1) maxDoublings ≤ Nat.pow 2 16 := by
    rw [Nat.one_shiftLeft]
    exact Nat.pow_le_pow_right (by decide) capped
  have factor : 1 <<< min (attempt - 1) maxDoublings < UInt32.size :=
    Nat.lt_of_le_of_lt small (by decide)
  have scaled : (SpanWords.ofSpan base).scale? (1 <<< min (attempt - 1) maxDoublings) =
      some (.ofSpan (steady base attempt)) := by
    rw [SpanWords.scale?_ofSpan small, Nat.one_shiftLeft]
    rfl
  have within : drawn ≤ min ((steady base attempt).wholeMillis / 2) (UInt64.size - 1) := may
  have whole : delay base attempt drawn = (steady base attempt).add (.ofMillis drawn) := by
    rw [delay, if_neg (Nat.ne_of_gt later), Nat.min_eq_left may]
  have jitter : SpanWords.ofMillis? drawn = some (.ofSpan (.ofMillis drawn)) :=
    SpanWords.ofMillis?_eq (lt_of_le_jitterBound may)
  simp only [delay?, word?_of_lt counted, if_pos later, word?_of_lt factor, scaled,
    SpanWords.millis?_ofSpan, if_pos within, Option.bind_eq_bind, Option.bind_some]
  rw [jitter, Option.bind_some, SpanWords.add?_ofSpan, whole]

/-- **Pauses stay in bounds.** With `b` for the base doubled once for each attempt between the first and
this one, sixteen times at most, and cut at the longest span: whatever may be drawn, the pause takes `b` and
as many whole milliseconds as were drawn, at most half of `b`, and is cut at the longest span; so it lies
between `b` and half as much again. Computed in words it is the same, as every step fits its word. And up to
the sixteenth attempt no pause is longer than any before the next attempt. -/
theorem pauses_in_bounds (base : Duration) {attempt drawn : Nat} (later : 1 ≤ attempt)
    (counted : attempt < UInt32.size) (may : drawn ≤ jitterBound base attempt) :
    let b := min (base.nanos * Nat.pow 2 (min (attempt - 1) 16)) Duration.maxNanos
    let pause := (delay base attempt drawn).nanos
    delay? (.ofSpan base) attempt drawn = some (.ofSpan (delay base attempt drawn)) ∧
      b ≤ pause ∧ pause ≤ min (b + b / 2) Duration.maxNanos ∧
      pause = min (b + drawn * nanosPerMilli) Duration.maxNanos ∧ drawn * nanosPerMilli ≤ b / 2 ∧
      (attempt ≤ 16 → ∀ drawn', drawn' ≤ jitterBound base (attempt + 1) →
        pause ≤ (delay base (attempt + 1) drawn').nanos) := by
  refine ⟨delay?_eq later counted may, steady_le_delay later may, delay_le_half_longer later may,
    delay_nanos later may, jitter_le_half may, fun doubling drawn' may' => ?_⟩
  calc (delay base attempt drawn).nanos
    _ ≤ min ((steady base attempt).nanos + (steady base attempt).nanos / 2) Duration.maxNanos :=
      delay_le_half_longer later may
    _ ≤ (steady base (attempt + 1)).nanos := half_longer_le_next later doubling
    _ ≤ (delay base (attempt + 1) drawn').nanos := steady_le_delay (Nat.le_add_left 1 attempt) may'

def nearlyLongest : Duration := .ofSeconds 12297829382473034411

theorem pauses_in_bounds_nearlyLongest :
    jitterBound nearlyLongest 1 = UInt64.size - 1 ∧
      delay? (.ofSpan nearlyLongest) 1 (UInt64.size - 1) =
        some (.ofSpan (delay nearlyLongest 1 (UInt64.size - 1))) ∧
      (delay nearlyLongest 1 (UInt64.size - 1)).nanos ≤ (delay nearlyLongest 2 0).nanos ∧
      delay nearlyLongest 2 0 = .longest := by
  have bounds := pauses_in_bounds nearlyLongest (show 1 ≤ 1 by decide) (show 1 < UInt32.size by decide)
    (show UInt64.size - 1 ≤ jitterBound nearlyLongest 1 by decide)
  exact ⟨by decide, bounds.1, bounds.2.2.2.2.2 (by decide) 0 (Nat.zero_le _), by decide⟩

end Exchange.Backoff

end MarketFeed
