import MarketFeed.ChunkFetch
import MarketFeed.Simulation.ScriptedClient
/-!
Fetches of many chunks from a scripted client, with a record of what was delivered.
-/

set_option autoImplicit false
set_option relaxedAutoImplicit false

namespace MarketFeed.Simulation.Chunking

def start (now : Instant) (cancelled : Bool) :
    (op : ChunkFetch.steps.Op) → List Payloads →
      Step (ChunkFetch.steps.Answer op) × List Payloads
  | .pause d, sunk => (Step.pause now cancelled d, sunk)
  | .deliver chunk, sunk => (Step.answer (α := Unit) (), sunk ++ [chunk])

def resume (now : Instant) (cancelled : Bool) :
    (op : ChunkFetch.steps.Op) → List Payloads →
      Step (ChunkFetch.steps.Answer op) × List Payloads
  | .pause _, sunk => (Step.resumed cancelled, sunk)
  | op, sunk => start now cancelled op sunk

def machine : Machine (List Payloads × ScriptedClient)
    (ChunkFetch.steps.sum ScriptedClient.requests) (Except FetchError Payloads) :=
  .ofHandler (Handler.sum (Handler.onFirst ⟨start, resume⟩) ScriptedClient.handler.onSecond)

def program (config : ChunkConfig) (mode : Endpoint.Mode) (ids : List String) :
    Program (ChunkFetch.steps.sum ScriptedClient.requests) (Except FetchError Payloads) :=
  (ChunkFetch.fetchAll config mode ids).interpretSecond
    (Client.Method.serve ScriptedClient.fetch)

end MarketFeed.Simulation.Chunking
