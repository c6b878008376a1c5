import MarketFeed.Duration
/-!
Numbers in which tokens and seconds are counted. Programs run with doubles; with rationals the same
definitions count exactly.
-/

set_option autoImplicit false
set_option relaxedAutoImplicit false

namespace MarketFeed

/-- A quotient rounded to a whole number, a half to the even neighbour. -/
def roundDiv (num den : Nat) : Nat :=
  let q := num / den
  let twice := 2 * (num % den)
  if den < twice || (twice == den && q % 2 == 1) then q + 1 else q

/-- Numbers with the arithmetic of token counts. `seconds` measures a span, `nearestSpan` is the span
closest to a number of seconds. -/
class Quantity (R : Type) extends Add R, Sub R, Mul R, Div R where
  ofNat : Nat → R
  atMost : R → R → Bool
  seconds : Duration → R
  nearestSpan : R → Duration

namespace Quantity

def least {R : Type} [Quantity R] (a b : R) : R := if atMost a b then a else b

/-- The number `significand * 2 ^ (exponent - 1075)` of seconds in nanoseconds. -/
def scaledNanos (significand exponent : Nat) : Nat :=
  if 1075 ≤ exponent then significand * Nat.pow 2 (exponent - 1075) * nanosPerSecond
  else roundDiv (significand * nanosPerSecond) (Nat.pow 2 (1075 - exponent))

/-- The whole nanoseconds closest to a double of seconds, none if it is negative or no number. -/
def doubleNanos (x : Float) : Nat :=
  let bits := x.toBits.toNat
  let exponent := bits / Nat.pow 2 52 % Nat.pow 2 11
  let fraction := bits % Nat.pow 2 52
  if Nat.pow 2 63 ≤ bits then 0
  else if exponent == 2047 then if fraction == 0 then Duration.maxNanos else 0
  else if exponent == 0 then scaledNanos fraction 1
  else scaledNanos (Nat.pow 2 52 + fraction) exponent

instance : Quantity Float where
  ofNat := Float.ofNat
  atMost a b := decide (a ≤ b)
  seconds d :=
    Float.ofNat d.wholeSeconds + Float.ofNat (d.nanos % nanosPerSecond) / Float.ofNat nanosPerSecond
  nearestSpan x := Duration.ofNanos (doubleNanos x)

instance : Quantity Rat where
  ofNat n := (n : Rat)
  atMost a b := decide (a ≤ b)
  seconds d := (d.nanos : Rat) / (nanosPerSecond : Rat)
  nearestSpan x :=
    let scaled := x * (nanosPerSecond : Rat)
    Duration.ofNanos (roundDiv scaled.num.toNat scaled.den)

end Quantity

end MarketFeed
