/-!
Announcements of what a feed has just done.
-/

set_option autoImplicit false
set_option relaxedAutoImplicit false

namespace MarketFeed

/-- A chunk was stored, or a refresh was completed (of a tier, or of a feed without tiers). -/
inductive RefreshEvent where
  | chunkStored (feed tier : String) (items : Nat)
  | tierCompleted (feed tier : String) (items : Nat)
  | refreshCompleted (feed : String) (items : Nat)
  deriving DecidableEq, Repr

namespace RefreshEvent

def feed : RefreshEvent → String
  | .chunkStored f _ _ => f
  | .tierCompleted f _ _ => f
  | .refreshCompleted f _ => f

def tier? : RefreshEvent → Option String
  | .chunkStored _ t _ => some t
  | .tierCompleted _ t _ => some t
  | .refreshCompleted _ _ => none

def items : RefreshEvent → Nat
  | .chunkStored _ _ n => n
  | .tierCompleted _ _ n => n
  | .refreshCompleted _ n => n

def withItems (n : Nat) : RefreshEvent → RefreshEvent
  | .chunkStored f t _ => .chunkStored f t n
  | .tierCompleted f t _ => .tierCompleted f t n
  | .refreshCompleted f _ => .refreshCompleted f n

def isCompletion : RefreshEvent → Bool
  | .chunkStored _ _ _ => false
  | _ => true

end RefreshEvent

end MarketFeed
