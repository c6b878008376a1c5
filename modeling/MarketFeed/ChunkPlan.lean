import MarketFeed.Endpoint.Locator
/-!
Cutting a list of identifiers into requests. In single mode each request takes one identifier. In
batch mode a chunk is closed when it has as many identifiers as allowed, or when the next one would
make its text in the address longer than allowed; an identifier that is too long alone still gets a
chunk of its own.
-/

set_option autoImplicit false
set_option relaxedAutoImplicit false

namespace MarketFeed

/-- Limits on one chunk and the pause between chunks. -/
structure ChunkConfig where
  chunkSize : UInt64 := 250
  maxIdsLen : UInt64 := 2000
  chunkDelayMs : UInt64 := 1000
  deriving DecidableEq, Repr

namespace ChunkPlan

def idLength (id : String) : Nat := (Endpoint.encodeText id).length

/-- Cuts the rest of a list while `chunk`, whose text has `length` characters, is open. -/
def batches (size limit : Nat) (chunk : List String) (length : Nat) :
    List String → List (List String)
  | [] => [chunk]
  | id :: rest =>
    let own := idLength id
    let added := if chunk.isEmpty then own else own + 1
    if !chunk.isEmpty && (size ≤ chunk.length || limit < length + added) then
      chunk :: batches size limit [id] own rest
    else batches size limit (chunk ++ [id]) (length + added) rest

def plan (ids : List String) (mode : Endpoint.Mode) (config : ChunkConfig) : List (List String) :=
  match mode with
  | .single => ids.map fun id => [id]
  | .batch =>
    if ids.isEmpty then []
    else batches (max config.chunkSize.toNat 1) config.maxIdsLen.toNat [] 0 ids

end ChunkPlan

end MarketFeed
