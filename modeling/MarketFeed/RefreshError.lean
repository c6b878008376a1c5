import MarketFeed.FetchError
/-!
What can go wrong while a feed is configured, refreshed or read, and the message of each cause.
-/

set_option autoImplicit false
set_option relaxedAutoImplicit false

namespace MarketFeed

/-- Causes of a failed refresh, read or construction of a feed. -/
inductive RefreshError where
  | invalidConfig (message : String)
  | fetch (cause : FetchError)
  | provider (message : String)
  | cache (message : String)
  | zeroYield (tier : String) (first last requested : Nat)
  | tierFailed (tier : String) (first last : Nat) (cause : RefreshError)
  | refreshFailed (tiers : List String)
  | notFound (id : String)
  deriving DecidableEq, Repr

namespace RefreshError

def tierLabel (tier : String) (first last : Nat) : String :=
  "Tier '" ++ tier ++ "' (ids " ++ toString first ++ "-" ++ toString last ++ ")"

/-- The message of a failure; a failed fetch speaks for itself. -/
def message : RefreshError → String
  | .invalidConfig m => "Invalid configuration: " ++ m
  | .fetch e => e.message
  | .provider m => "Identifier provider failed: " ++ m
  | .cache m => "Cache store error: " ++ m
  | .zeroYield tier first last requested =>
    tierLabel tier first last ++ " fetched no data for " ++ toString requested ++ " requested ids"
  | .tierFailed tier first last cause =>
    tierLabel tier first last ++ " refresh failed: " ++ cause.message
  | .refreshFailed tiers => "Refresh failed for " ++ ", ".intercalate tiers
  | .notFound id => "Not found: " ++ id

def isCancelled : RefreshError → Bool
  | .fetch e => e.isCancelled
  | .tierFailed _ _ _ e => e.isCancelled
  | _ => false

end RefreshError

end MarketFeed
