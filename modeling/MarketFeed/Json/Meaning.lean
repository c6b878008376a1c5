import MarketFeed.Json.Reader
import MarketFeed.Json.Value
/-!
Texts as values. The document that a text writes is nested up to a depth, and so is every document
embedded in it.
-/

set_option autoImplicit false
set_option relaxedAutoImplicit false

namespace MarketFeed.Json

def maxDepth : Nat := 127

/-- The value that a text writes, with documents embedded in each other within an allowance. -/
def readWithin : Nat → List Char → Option Value
  | 0, _ => none
  | allowance + 1, s =>
    match document s with
    | some t => if t.depth ≤ maxDepth then t.value? (readWithin allowance) else none
    | none => none

/-- The value that a text writes. An embedded text is shorter than the one around it, so the
allowance is never used up. -/
def read? (s : List Char) : Option Value := readWithin (s.length + 1) s

def Tree.members? : Tree → Option (List (String × Value))
  | .object members =>
    if (Tree.object members).depth ≤ maxDepth then Tree.valueMembers? read? members else none
  | _ => none

end MarketFeed.Json
