import MarketFeed.Duration
/-!
Pauses before further attempts. The pause doubles with each attempt, up to sixteen doublings, and a
random part of at most half of it is added in whole milliseconds.
-/

set_option autoImplicit false
set_option relaxedAutoImplicit false

namespace MarketFeed.Exchange.Backoff

def maxDoublings : Nat := 16

/-- The pause before an attempt without its random part; attempts count from zero. -/
def steady (base : Duration) (attempt : Nat) : Duration :=
  base.scale (Nat.pow 2 (min (attempt - 1) maxDoublings))

/-- The most milliseconds of the random part, a number of 64 bits. -/
def jitterBound (base : Duration) (attempt : Nat) : Nat :=
  min ((steady base attempt).wholeMillis / 2) (UInt64.size - 1)

/-- The pause before an attempt when `drawn` milliseconds were drawn; the first attempt never
waits. -/
def delay (base : Duration) (attempt drawn : Nat) : Duration :=
  if attempt = 0 then Duration.zero
  else (steady base attempt).add (Duration.ofMillis (min drawn (jitterBound base attempt)))

end MarketFeed.Exchange.Backoff
