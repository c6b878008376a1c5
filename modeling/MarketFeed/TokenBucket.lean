import MarketFeed.Quantity
import MarketFeed.RateLimit
/-!
Token buckets. A bucket holds at most its capacity of tokens and refills at its rate as time passes;
each request takes one whole token. The refill is worked out when the bucket is next looked at.
-/

set_option autoImplicit false
set_option relaxedAutoImplicit false

namespace MarketFeed

/-- Tokens at a point in time, the refill in tokens a second, and the most that it holds. -/
structure TokenBucket (R : Type) where
  tokens : R
  updated : Instant
  rate : R
  capacity : R

namespace TokenBucket

variable {R : Type} [Quantity R]

open Quantity

/-- A full bucket for a limit; a limit of zero counts as one. -/
def full (limit : RateLimit) (now : Instant) : TokenBucket R where
  tokens := ofNat (max limit.burst.toNat 1)
  updated := now
  rate := (ofNat (max limit.requestsPerMinute.toNat 1) : R) / ofNat 60
  capacity := ofNat (max limit.burst.toNat 1)

/-- The bucket at `now`, with what has flowed in since it was last looked at. -/
def refill (b : TokenBucket R) (now : Instant) : TokenBucket R :=
  { b with
    tokens := least (b.tokens + seconds (Instant.since now b.updated) * b.rate) b.capacity
    updated := now }

def hasToken (b : TokenBucket R) : Bool := atMost (ofNat 1) b.tokens

def take (b : TokenBucket R) (now : Instant) : Bool × TokenBucket R :=
  let b := b.refill now
  if b.hasToken then (true, { b with tokens := b.tokens - ofNat 1 }) else (false, b)

/-- How long from `now` until a whole token is there. -/
def waitTime (b : TokenBucket R) (now : Instant) : Duration × TokenBucket R :=
  let b := b.refill now
  if b.hasToken then (Duration.zero, b)
  else (nearestSpan ((ofNat 1 - b.tokens) / b.rate), b)

end TokenBucket

end MarketFeed
