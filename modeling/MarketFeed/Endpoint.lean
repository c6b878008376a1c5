import MarketFeed.Table
/-!
Endpoints of the data service: a path with a placeholder for one identifier or for a list, the hosts,
the parameters of every request, and the names under which keys are sent.
-/

set_option autoImplicit false
set_option relaxedAutoImplicit false

namespace MarketFeed

inductive Endpoint.Mode where
  | single
  | batch
  deriving DecidableEq, Repr

namespace Endpoint.Mode

def word : Mode → String
  | .single => "single"
  | .batch => "batch"

def title : Mode → String
  | .single => "Single"
  | .batch => "Batch"

def ofWord? (w : String) : Option Mode := [Mode.single, Mode.batch].find? fun m => m.word == w

/-- The text that stands for the identifiers in a path. -/
def placeholder : Mode → String
  | .single => "\x7b\x7bid\x7d\x7d"
  | .batch => "\x7b\x7bids_list\x7d\x7d"

end Endpoint.Mode

structure Endpoint where
  path : String
  baseUrl : String := "https://api.coingecko.com/api/v3"
  proBaseUrl : String := "https://pro-api.coingecko.com/api/v3"
  queryParams : Table String := ∅
  paidKeyParam : String := "x_cg_pro_api_key"
  demoKeyParam : String := "x_cg_demo_api_key"
  mode : Option Endpoint.Mode := none
  deriving DecidableEq

namespace Endpoint

def withBaseUrl (e : Endpoint) (url : String) : Endpoint := { e with baseUrl := url, proBaseUrl := url }

def withQueryParam (e : Endpoint) (name value : String) : Endpoint :=
  { e with queryParams := e.queryParams.insert name value }

end Endpoint

end MarketFeed
