import MarketFeed.Payloads
import MarketFeed.Program
/-!
Clients as seen by their users: something that can be asked for the payloads of some identifiers.
-/

set_option autoImplicit false
set_option relaxedAutoImplicit false

namespace MarketFeed.Client

inductive Fetch where
  | chunk (ids : List String)
  deriving DecidableEq, Repr

def fetches : Signature := ⟨Fetch, fun _ => Except FetchError Payloads⟩

/-- A client: how it carries out a fetch among surroundings of its own. -/
abbrev Method (S : Signature) := List String → Program S (Except FetchError Payloads)

def Method.serve {S : Signature} (m : Method S) :
    (op : fetches.Op) → Program S (fetches.Answer op)
  | .chunk ids => m ids

end MarketFeed.Client
