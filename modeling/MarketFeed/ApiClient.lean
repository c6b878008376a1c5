import MarketFeed.Endpoint.Locator
import MarketFeed.Exchange
import MarketFeed.KeyRing.Rotation
import MarketFeed.Payloads
/-!
A client of the data service: one fetch asks for some identifiers with each usable credential in
turn until an exchange succeeds, and cuts the body into payloads.
-/

set_option autoImplicit false
set_option relaxedAutoImplicit false

namespace MarketFeed

/-- What to ask for, and how to pace and repeat it. -/
structure ApiClient where
  name : String
  locator : Endpoint.Locator
  policy : RateLimit.Policy
  retry : RetryConfig
  deriving DecidableEq

namespace ApiClient

inductive Selection where
  | available (fine : Bool)
  deriving DecidableEq, Repr

def selections : Signature := ⟨Selection, fun _ => List Credential⟩

def requests : Signature := selections.sum (KeyRing.controls.sum Exchange.network)

def available (fine : Bool) : Program requests (List Credential) :=
  Program.call (S := requests) (.inl (.available fine))

def mode (c : ApiClient) : Endpoint.Mode := c.locator.mode

def label (c : ApiClient) (ids : List String) : String :=
  c.name ++ " (" ++ toString ids.length ++ " ids)"

def useCredential (c : ApiClient) (ids : List String) (key : Credential) :
    Program requests (Except FetchError Exchange.Response) :=
  match c.locator.url ids (some key) with
  | .error e => return .error e
  | .ok url =>
    (Exchange.perform c.retry (c.label ids ++ " via " ++ key.masked) url).inSecond.inSecond

def carryOut (c : ApiClient) (ids : List String) :
    (op : (KeyRing.rotation Exchange.Response).Op) →
      Program requests ((KeyRing.rotation Exchange.Response).Answer op)
  | .inl question => Program.call (S := requests) (.inr (.inl question))
  | .inr (.call key) => c.useCredential ids key

/-- Fetches the payloads of some identifiers; without identifiers nothing is asked. -/
def fetch (c : ApiClient) (ids : List String) : Program requests (Except FetchError Payloads) :=
  if ids.isEmpty then return .ok ∅
  else do
    let keys ← available c.locator.isFine
    match ← (KeyRing.rotate c.policy keys).interpret (c.carryOut ids) with
    | .error e => return .error e
    | .ok response => return Payloads.split c.mode ids response.body

end ApiClient

end MarketFeed
