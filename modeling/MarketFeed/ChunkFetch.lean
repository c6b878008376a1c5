import MarketFeed.ChunkPlan
import MarketFeed.Client
import MarketFeed.Duration
import MarketFeed.Signal
/-!
Fetching a whole list chunk by chunk, with a pause between chunks. Each chunk is delivered as soon as
it has arrived, so what came before a failure stays delivered.
-/

set_option autoImplicit false
set_option relaxedAutoImplicit false

namespace MarketFeed.ChunkFetch

/-- What a fetch of many chunks asks for beside the chunks: to pause, and to deliver one chunk. -/
inductive Op where
  | pause (d : Duration)
  | deliver (chunk : Payloads)

def Op.Answer : Op → Type
  | .pause _ => Signal
  | .deliver _ => Unit

def steps : Signature := ⟨Op, Op.Answer⟩

def requests : Signature := steps.sum Client.fetches

def fetch (ids : List String) : Program requests (Except FetchError Payloads) :=
  Program.call (S := requests) (.inr (.chunk ids))

def pause (d : Duration) : Program requests Signal :=
  Program.call (S := requests) (.inl (.pause d))

def deliver (chunk : Payloads) : Program requests Unit :=
  Program.call (S := requests) (.inl (.deliver chunk))

def prepare (delay : Duration) (index : Nat) : Program requests Signal :=
  if index = 0 || delay.isZero then return .elapsed else pause delay

/-- A failure of chunk number `index`, counted from zero; a cancellation stays what it is. -/
def blame (index total count : Nat) (e : FetchError) : FetchError :=
  if e.isCancelled then e else .chunkFailed (index + 1) total count e

/-- The chunks that are left, of which the next is number `index`; `data` is what has arrived. -/
def fetchFrom (delay : Duration) (total : Nat) :
    Nat → List (List String) → Payloads → Program requests (Except FetchError Payloads)
  | _, [], data => return .ok data
  | index, chunk :: rest, data => do
    match ← prepare delay index with
    | .cancelled => return .error .cancelled
    | .elapsed =>
      match ← fetch chunk with
      | .error e => return .error (blame index total chunk.length e)
      | .ok arrived =>
        deliver arrived
        fetchFrom delay total (index + 1) rest (data.union arrived)

def fetchAll (config : ChunkConfig) (mode : Endpoint.Mode) (ids : List String) :
    Program requests (Except FetchError Payloads) :=
  let chunks := ChunkPlan.plan ids mode config
  fetchFrom (Duration.ofMillis config.chunkDelayMs.toNat) chunks.length 0 chunks ∅

end MarketFeed.ChunkFetch
