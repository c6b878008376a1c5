import MarketFeed.RefreshError
/-!
Sources of ranked identifiers.
-/

set_option autoImplicit false
set_option relaxedAutoImplicit false

namespace MarketFeed

/-- A fixed list, the best rank first, or a source that fails. -/
inductive Ranking where
  | fixed (ids : List String)
  | failing (e : RefreshError)
  deriving DecidableEq, Repr

namespace Ranking

/-- The identifiers of the first `limit` ranks, or all of them if the limit is zero. -/
def top (r : Ranking) (limit : Nat) : Except RefreshError (List String) :=
  match r with
  | .fixed ids => .ok (if limit = 0 then ids else ids.take limit)
  | .failing e => .error e

end Ranking

end MarketFeed
