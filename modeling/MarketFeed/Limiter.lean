import MarketFeed.TokenBucket
/-!
One token bucket for each kind of credential. A bucket is made full when its kind is first asked for;
a kind without a configured limit has the standard one.
-/

set_option autoImplicit false
set_option relaxedAutoImplicit false

namespace MarketFeed

/-- Configured limits and the buckets made so far. -/
structure Limiter (R : Type) where
  limits : Credential.PerKind (Option RateLimit)
  buckets : Credential.PerKind (Option (TokenBucket R))

namespace Limiter

variable {R : Type} [Quantity R]

def ofLimits (limits : Credential.PerKind (Option RateLimit)) : Limiter R where
  limits := limits
  buckets := .const none

def limitFor (l : Limiter R) (kind : Credential.Kind) : RateLimit :=
  (l.limits.get kind).getD (RateLimit.standard kind)

/-- The bucket of a kind, made at `now` if it was not asked for before. -/
def bucket (l : Limiter R) (now : Instant) (kind : Credential.Kind) : TokenBucket R :=
  (l.buckets.get kind).getD (TokenBucket.full (l.limitFor kind) now)

def withBucket (l : Limiter R) (kind : Credential.Kind) (b : TokenBucket R) : Limiter R :=
  { l with buckets := l.buckets.set kind (some b) }

def take (l : Limiter R) (now : Instant) (kind : Credential.Kind) : Bool × Limiter R :=
  let r := (l.bucket now kind).take now
  (r.1, l.withBucket kind r.2)

def shortestPause : Duration := Duration.ofMillis 1

/-- Takes a token of a kind at `now`, or tells how long to wait before another attempt. -/
def attempt (l : Limiter R) (now : Instant) (kind : Credential.Kind) :
    Option Duration × Limiter R :=
  let r := (l.bucket now kind).take now
  if r.1 then (none, l.withBucket kind r.2)
  else
    let w := r.2.waitTime now
    (some (w.1.longer shortestPause), l.withBucket kind w.2)

end Limiter

end MarketFeed
