import MarketFeed.Duration
import MarketFeed.Table
/-!
Benching of credentials that failed. A failure benches its secret for one window, a further failure
starts the window anew, and a success ends it. A window that has passed is forgotten when the secret
is next asked for.
-/

set_option autoImplicit false
set_option relaxedAutoImplicit false

namespace MarketFeed

/-- The window, and the last failure of each secret that is not forgotten. -/
structure Cooldown where
  window : Duration
  failures : Table Instant
  deriving DecidableEq

namespace Cooldown

def standardWindow : Duration := Duration.ofSeconds 60

def fresh (window : Duration) : Cooldown := ⟨window, ∅⟩

def recordFailure (c : Cooldown) (now : Instant) (secret : String) : Cooldown :=
  { c with failures := c.failures.insert secret now }

def recordSuccess (c : Cooldown) (secret : String) : Cooldown :=
  { c with failures := c.failures.erase secret }

/-- Whether a secret may be used at `now`; a window that has passed is forgotten. -/
def isAvailable (c : Cooldown) (now : Instant) (secret : String) : Bool × Cooldown :=
  match c.failures.get? secret with
  | none => (true, c)
  | some failed =>
    if c.window.nanos ≤ (Instant.since now failed).nanos then (true, c.recordSuccess secret)
    else (false, c)

def remaining (c : Cooldown) (now : Instant) (secret : String) : Option Duration :=
  match c.failures.get? secret with
  | none => none
  | some failed =>
    let elapsed := Instant.since now failed
    if c.window.nanos ≤ elapsed.nanos then none
    else some (Duration.ofNanos (c.window.nanos - elapsed.nanos))

end Cooldown

end MarketFeed
