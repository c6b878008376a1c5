/-!
Ends of a wait.
-/

set_option autoImplicit false
set_option relaxedAutoImplicit false

namespace MarketFeed

/-- How a wait ended: its time passed, or its caller cancelled. -/
inductive Signal where
  | elapsed
  | cancelled
  deriving DecidableEq, Repr

end MarketFeed
