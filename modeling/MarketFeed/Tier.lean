import MarketFeed.Duration
/-!
Tiers: ranges of ranks, each with its own interval between refreshes. Ranks count from one and both
ends belong to the range.
-/

set_option autoImplicit false
set_option relaxedAutoImplicit false

namespace MarketFeed

structure TierConfig where
  name : String
  idFrom : UInt64
  idTo : UInt64
  updateIntervalSecs : UInt64
  fetchSupplementaryIds : Bool := false
  deriving DecidableEq, Repr

/-- A range of ranks, its interval, and whether identifiers of a second source are fetched with it. -/
structure Tier where
  name : String
  idFrom : Nat
  idTo : Nat
  interval : Duration
  supplementary : Bool
  deriving DecidableEq

namespace Tier

/-- The tier of a configured one. -/
def ofConfig (c : TierConfig) : Tier where
  name := c.name
  idFrom := c.idFrom.toNat
  idTo := c.idTo.toNat
  interval := Duration.ofSeconds c.updateIntervalSecs.toNat
  supplementary := c.fetchSupplementaryIds

/-- The identifiers of this tier in a ranked list, cut at its end; none are left if the tier begins
beyond it. There is no answer if the range so cut ends before it begins. -/
def slice? (t : Tier) (ranked : List String) : Option (List String) :=
  let start := t.idFrom - 1
  if ranked.length ≤ start then some []
  else
    let stop := min t.idTo ranked.length
    if start ≤ stop then some ((ranked.take stop).drop start) else none

/-- The least time after which a refresh counts as stuck. -/
def minStuckTimeout : Duration := Duration.ofSeconds 600

def stuckTimeout (t : Tier) : Duration := minStuckTimeout.longer (t.interval.scale 3)

def rangeLabel (t : Tier) : String := toString t.idFrom ++ "-" ++ toString t.idTo

def covers (t : Tier) (rank : Nat) : Prop := t.idFrom ≤ rank ∧ rank ≤ t.idTo

instance (t : Tier) (rank : Nat) : Decidable (t.covers rank) :=
  inferInstanceAs (Decidable (_ ∧ _))

end Tier

end MarketFeed
