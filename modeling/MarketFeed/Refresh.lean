import MarketFeed.ChunkFetch
import MarketFeed.RefreshError
import MarketFeed.RefreshEvent
import MarketFeed.Tier
/-!
One refresh of a tier: the identifiers of its ranks are fetched chunk by chunk, each chunk is stored
and announced as it arrives, identifiers of a second source may follow, and the completion is
announced. Fetching nothing at all for some identifiers is a failure.
-/

set_option autoImplicit false
set_option relaxedAutoImplicit false

namespace MarketFeed.Refresh

/-- Where identifiers come from. -/
inductive Source where
  | ranked
  | supplementary
  deriving DecidableEq, Repr

/-- What a refresh asks for beside the chunks: identifiers of a source that may be missing, a pause,
storing a chunk, announcing something, marking the feed as ready, and recording its own end. A
refresh that breaks down asks for `breakDown`, which has no answer. -/
inductive Op where
  | ids (source : Source) (limit : Nat)
  | pause (d : Duration)
  | store (chunk : Payloads)
  | publish (event : RefreshEvent)
  | markReady
  | finish (tier : String) (started : Instant) (succeeded : Bool)
  | breakDown

def Op.Answer : Op → Type
  | .ids _ _ => Option (Except RefreshError (List String))
  | .pause _ => Signal
  | .store _ => Except RefreshError Unit
  | .publish _ => Unit
  | .markReady => Unit
  | .finish _ _ _ => Unit
  | .breakDown => Empty

def steps : Signature := ⟨Op, Op.Answer⟩

def requests : Signature := steps.sum Client.fetches

def ids (source : Source) (limit : Nat) :
    Program requests (Option (Except RefreshError (List String))) :=
  Program.call (S := requests) (.inl (.ids source limit))

def store (chunk : Payloads) : Program requests (Except RefreshError Unit) :=
  Program.call (S := requests) (.inl (.store chunk))

def publish (event : RefreshEvent) : Program requests Unit :=
  Program.call (S := requests) (.inl (.publish event))

def markReady : Program requests Unit := Program.call (S := requests) (.inl .markReady)

def finish (tier : String) (started : Instant) (succeeded : Bool) : Program requests Unit :=
  Program.call (S := requests) (.inl (.finish tier started succeeded))

def breakDown {α : Type} : Program requests α := .ask (.inl .breakDown) fun (r : Empty) => r.elim

/-- What a refresh needs to know of its feed. -/
structure Plan where
  feed : String
  tiered : Bool
  mode : Endpoint.Mode
  chunks : ChunkConfig
  deriving DecidableEq

/-- Stores a chunk that is not empty and, if that succeeds, announces it. -/
def deliver (feed tier : String) (chunk : Payloads) : Program requests Unit :=
  if chunk.isEmpty then return ()
  else do
    match ← store chunk with
    | .error _ => return ()
    | .ok () => publish (.chunkStored feed tier chunk.size)

def carryOut (feed tier : String) :
    (op : ChunkFetch.requests.Op) → Program requests (ChunkFetch.requests.Answer op)
  | .inl (.pause d) => Program.call (S := requests) (.inl (.pause d))
  | .inl (.deliver chunk) => deliver feed tier chunk
  | .inr fetch => Program.call (S := requests) (.inr fetch)

def fetchAll (plan : Plan) (tier : String) (ids : List String) :
    Program requests (Except RefreshError Payloads) := do
  let result ← (ChunkFetch.fetchAll plan.chunks plan.mode ids).interpret (carryOut plan.feed tier)
  return result.mapError RefreshError.fetch

/-- The identifiers of the second source that were not fetched yet, each once. -/
def extraIds (fetched : Payloads) (ids : List String) : List String :=
  (ids.filter fun id => !fetched.contains id).eraseDups

def fetchExtra (plan : Plan) (tier : String) (fetched : Payloads) :
    Program requests (Except RefreshError Payloads) := do
  match ← ids .supplementary 0 with
  | none => return .ok ∅
  | some (.error e) => return .error e
  | some (.ok more) =>
    let extra := extraIds fetched more
    if extra.isEmpty then return .ok ∅ else fetchAll plan tier extra

/-- Adds the second source if the tier asks for it; only a cancellation there fails the refresh. -/
def withExtra (plan : Plan) (tier : Tier) (fetched : Payloads) :
    Program requests (Except RefreshError Payloads) :=
  if tier.supplementary then do
    match ← fetchExtra plan tier.name fetched with
    | .ok extra => return .ok (fetched.union extra)
    | .error e => if e.isCancelled then return .error e else return .ok fetched
  else return .ok fetched

def completion (plan : Plan) (tier : Tier) (items : Nat) : RefreshEvent :=
  if plan.tiered then .tierCompleted plan.feed tier.name items
  else .refreshCompleted plan.feed items

def conclude (plan : Plan) (tier : Tier) (ranks requested : Nat) (data : Payloads) :
    Program requests (Except RefreshError Nat) :=
  if data.isEmpty then
    return .error (.zeroYield tier.name tier.idFrom (min tier.idTo ranks) requested)
  else do
    markReady
    publish (completion plan tier data.size)
    return .ok data.size

/-- The failure of a feed without a source of ranks. -/
def noSource : RefreshError := .provider "no identifier provider installed"

def body (plan : Plan) (tier : Tier) : Program requests (Except RefreshError Nat) := do
  match ← ids .ranked (if plan.tiered then tier.idTo else 0) with
  | none => return .error noSource
  | some (.error e) => return .error e
  | some (.ok ranked) =>
    match tier.slice? ranked with
    | none => breakDown
    | some slice =>
      if slice.isEmpty then return .ok 0
      else
        match ← fetchAll plan tier.name slice with
        | .error e => return .error e
        | .ok fetched =>
          match ← withExtra plan tier fetched with
          | .error e => return .error e
          | .ok data => conclude plan tier ranked.length slice.length data

def succeeded {α : Type} : Except RefreshError α → Bool
  | .ok _ => true
  | .error _ => false

/-- A failure as it is told of the tier: cancellations and empty results speak for themselves. -/
def tell (tier : Tier) (e : RefreshError) : RefreshError :=
  if e.isCancelled then e
  else match e with
    | .zeroYield _ _ _ _ => e
    | _ => .tierFailed tier.name tier.idFrom tier.idTo e

def run (plan : Plan) (tier : Tier) (started : Instant) :
    Program requests (Except RefreshError Nat) := do
  let result ← body plan tier
  finish tier.name started (succeeded result)
  return result.mapError (tell tier)

end MarketFeed.Refresh
