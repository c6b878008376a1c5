import MarketFeed.Simulation.Keys
import MarketFeed.Simulation.Network
/-!
A client of the data service on a scripted network.
-/

set_option autoImplicit false
set_option relaxedAutoImplicit false

namespace MarketFeed.Simulation.Calling

variable {R : Type} [Quantity R]

def handler : Handler (KeyRing R × Network) ApiClient.requests :=
  Keys.selections.onFirst.sum (Keys.controls.onFirst.sum Network.handler.onSecond)

def machine : Machine (KeyRing R × Network) ApiClient.requests (Except FetchError Payloads) :=
  .ofHandler handler

def exchanging : Machine Network Exchange.network (Except FetchError Exchange.Response) :=
  .ofHandler Network.handler

end MarketFeed.Simulation.Calling
