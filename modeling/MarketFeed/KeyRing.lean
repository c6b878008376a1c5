import MarketFeed.Cooldown
import MarketFeed.Limiter
/-!
The credentials of one feed, in the order in which they are tried, with the pace of each kind and
the benching of those that failed.
-/

set_option autoImplicit false
set_option relaxedAutoImplicit false

namespace MarketFeed

structure KeyRing.Config where
  tryAnonymousFirst : Bool := false
  allowAnonymous : Bool := true
  policy : RateLimit.Policy := .wait
  cooldownSecs : UInt64 := 60
  rateLimits : Credential.PerKind (Option RateLimit) := .const none
  deriving DecidableEq, Repr

/-- Keyed credentials, the best first, and the state of their use. -/
structure KeyRing (R : Type) where
  credentials : List Credential
  config : KeyRing.Config
  cooldown : Cooldown
  limiter : Limiter R

namespace KeyRing

variable {R : Type} [Quantity R]

/-- The keyed credentials of a list: paid ones, then demo ones, each in the order given. Anonymous
entries and empty secrets are left out. -/
def keyed (credentials : List Credential) : List Credential :=
  let usable := credentials.filter fun c => !c.isAnonymous && !c.secret.isEmpty
  [Credential.Kind.paid, .demo].flatMap fun kind => usable.filter fun c => c.kind == kind

def ofCredentials (credentials : List Credential) (config : Config) : KeyRing R where
  credentials := keyed credentials
  config := config
  cooldown := Cooldown.fresh (Duration.ofSeconds config.cooldownSecs.toNat)
  limiter := Limiter.ofLimits config.rateLimits

/-- Every credential in the order in which it would be tried. The anonymous one, if allowed, comes
last, or first if so configured and no fine data is asked for. -/
def ordered (k : KeyRing R) (fine : Bool) : List Credential :=
  if k.config.allowAnonymous then
    if k.config.tryAnonymousFirst && !fine then Credential.unkeyed :: k.credentials
    else k.credentials ++ [Credential.unkeyed]
  else k.credentials

/-- Keeps the credentials of a list that are not benched at `now`. -/
def sift (now : Instant) : List Credential → Cooldown → List Credential × Cooldown
  | [], c => ([], c)
  | key :: keys, c =>
    let seen := c.isAvailable now key.secret
    let rest := sift now keys seen.2
    (if seen.1 then key :: rest.1 else rest.1, rest.2)

/-- The credentials that may be used at `now`, in the order in which they are tried. -/
def available (k : KeyRing R) (now : Instant) (fine : Bool) : List Credential × KeyRing R :=
  let r := sift now (k.ordered fine) k.cooldown
  (r.1, { k with cooldown := r.2 })

def markFailed (k : KeyRing R) (now : Instant) (secret : String) : KeyRing R :=
  { k with cooldown := k.cooldown.recordFailure now secret }

def markSucceeded (k : KeyRing R) (secret : String) : KeyRing R :=
  { k with cooldown := k.cooldown.recordSuccess secret }

end KeyRing

end MarketFeed
