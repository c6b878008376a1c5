/-!
Spans of time and points on one clock. A span is a whole number of nanoseconds below `2 ^ 64`
seconds; arithmetic stops at the longest span instead of overflowing. A point is the number of
nanoseconds since the clock started. The clock's timers go off on whole milliseconds only, and none
runs for more than thirty years. Points from the horizon on cannot be told.
-/

set_option autoImplicit false
set_option relaxedAutoImplicit false

namespace MarketFeed

def nanosPerSecond : Nat := 1000000000

def nanosPerMilli : Nat := 1000000

/-- A span of time in nanoseconds, shorter than `2 ^ 64` seconds. -/
structure Duration where
  nanos : Nat
  nanos_lt : nanos < UInt64.size * nanosPerSecond
  deriving DecidableEq

namespace Duration

def maxNanos : Nat := UInt64.size * nanosPerSecond - 1

/-- The span of `n` nanoseconds, or the longest span if that is too long. -/
def ofNanos (n : Nat) : Duration :=
  ⟨min n maxNanos, by
    have h : min n maxNanos ≤ maxNanos := Nat.min_le_right n maxNanos
    have hm : maxNanos < UInt64.size * nanosPerSecond := by decide
    exact Nat.lt_of_le_of_lt h hm⟩

def ofMillis (n : Nat) : Duration := ofNanos (n * nanosPerMilli)

def ofSeconds (n : Nat) : Duration := ofNanos (n * nanosPerSecond)

def zero : Duration := ofNanos 0

def longest : Duration := ofNanos maxNanos

instance : Inhabited Duration := ⟨zero⟩

/-- The longest that a timer runs: thirty years of 365 days. -/
def longestTimer : Duration := ofSeconds (30 * 365 * 86400)

def add (d e : Duration) : Duration := ofNanos (d.nanos + e.nanos)

def scale (d : Duration) (k : Nat) : Duration := ofNanos (d.nanos * k)

def longer (d e : Duration) : Duration := if d.nanos ≤ e.nanos then e else d

def wholeSeconds (d : Duration) : Nat := d.nanos / nanosPerSecond

def wholeMillis (d : Duration) : Nat := d.nanos / nanosPerMilli

def isZero (d : Duration) : Bool := d.nanos == 0

def decimal (d : Duration) : String :=
  let digits := toString (d.nanos % nanosPerSecond)
  toString d.wholeSeconds ++ "." ++ String.ofList (List.replicate (9 - digits.length) '0') ++ digits

theorem nanos_ofNanos (n : Nat) : (ofNanos n).nanos = min n maxNanos := rfl

theorem nanos_ofMillis {n : Nat} (fits : n < UInt64.size) :
    (ofMillis n).nanos = n * nanosPerMilli := by
  refine Nat.min_eq_left ?_
  unfold maxNanos nanosPerSecond nanosPerMilli UInt64.size at *
  omega

theorem nanos_le_max (d : Duration) : d.nanos ≤ maxNanos := by
  have h := d.nanos_lt
  unfold maxNanos
  omega

theorem ext_nanos {d e : Duration} (h : d.nanos = e.nanos) : d = e := by
  cases d; cases e; simp_all

end Duration

/-- A point in time: nanoseconds since the clock started. -/
abbrev Instant := Nat

namespace Instant

def after (t : Instant) (d : Duration) : Instant := t + d.nanos

/-- The end of the points that can be told. Seconds are counted in 63 bits, from up to `2 ^ 20`
seconds before the clock started. -/
def horizon : Instant := (Nat.pow 2 63 - Nat.pow 2 20) * nanosPerSecond

def after? (t : Instant) (d : Duration) : Option Instant :=
  if after t d < horizon then some (after t d) else none

/-- How long ago `s` was at `t`; no time if `s` lies ahead. -/
def since (t s : Instant) : Duration := Duration.ofNanos (t - s)

def nextMilli (t : Instant) : Instant := (t + (nanosPerMilli - 1)) / nanosPerMilli * nanosPerMilli

def timer (t : Instant) (d : Duration) : Instant :=
  nextMilli (t + min d.nanos Duration.longestTimer.nanos)

theorem le_nextMilli (t : Nat) : t ≤ nextMilli t := by
  show t ≤ (t + (nanosPerMilli - 1)) / nanosPerMilli * nanosPerMilli
  unfold nanosPerMilli
  omega

end Instant

end MarketFeed
