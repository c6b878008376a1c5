import MarketFeed.Credential
/-!
Configured request rates: how many requests a minute refills, how many may come at once, and what to
do when none is left.
-/

set_option autoImplicit false
set_option relaxedAutoImplicit false

namespace MarketFeed

/-- Requests a minute and requests at once. -/
structure RateLimit where
  requestsPerMinute : UInt32
  burst : UInt32
  deriving DecidableEq, Repr

/-- What to do with a credential whose kind has no token left. -/
inductive RateLimit.Policy where
  | wait
  | skip
  deriving DecidableEq, Repr

namespace RateLimit

def Policy.word : Policy → String
  | .wait => "wait"
  | .skip => "skip"

def Policy.ofWord? (w : String) : Option Policy :=
  [Policy.wait, Policy.skip].find? fun p => p.word == w

def standard : Credential.Kind → RateLimit
  | .paid => ⟨500, 50⟩
  | .demo => ⟨30, 5⟩
  | .anonymous => ⟨10, 2⟩

end RateLimit

end MarketFeed
