import MarketFeed.EventBus
import MarketFeed.Feed
import MarketFeed.Ranking
import MarketFeed.Simulation.Scheduler
import MarketFeed.Simulation.Storage
/-!
A running feed: its schedule, its part of a store, its sources of identifiers and a client, on one
clock. Refreshes and reads are jobs; a ticker claims what is due and starts its refreshes.
-/

set_option autoImplicit false
set_option relaxedAutoImplicit false

namespace MarketFeed.Simulation

/-- The state of a feed beside its client, the bus on which it announces what it does, and a record of
how many identifiers its sources were asked for. -/
structure FeedState where
  plan : Refresh.Plan
  slice : Cache.Slice
  schedule : Schedule
  storage : Storage
  ranked : Option Ranking
  supplementary : Option Ranking
  ready : Bool
  bus : EventBus
  limits : List Nat

namespace FeedState

def ofConfig (c : FeedConfig) (mode : Endpoint.Mode) (ranked supplementary : Option Ranking)
    (bus : EventBus) : FeedState where
  plan := Feed.planOf c mode
  slice := Feed.sliceOf c
  schedule := Feed.scheduleOf c
  storage := .empty
  ranked := ranked
  supplementary := supplementary
  ready := false
  bus := bus
  limits := []

def source (f : FeedState) : Refresh.Source → Option Ranking
  | .ranked => f.ranked
  | .supplementary => f.supplementary

def startStep (now : Instant) (cancelled : Bool) :
    (op : Refresh.steps.Op) → FeedState → Step (Refresh.steps.Answer op) × FeedState
  | .ids source limit, f =>
    let answer := (f.source source).map fun r => r.top limit
    let f := if answer.isSome then { f with limits := f.limits ++ [limit] } else f
    (Step.answer (α := Option (Except RefreshError (List String))) answer, f)
  | .pause d, f => (Step.pause now cancelled d, f)
  | .store chunk, f =>
    let r := f.storage.write f.slice now chunk
    (Step.ofAnswer? (α := Except RefreshError Unit) r.1, { f with storage := r.2 })
  | .publish event, f => (Step.answer (α := Unit) (), { f with bus := f.bus.publish event })
  | .markReady, f => (Step.answer (α := Unit) (), { f with ready := true })
  | .finish tier started succeeded, f =>
    (Step.answer (α := Unit) (),
      { f with schedule := f.schedule.finish tier started succeeded now })
  | .breakDown, f => (.breakDown, f)

def resumeStep (now : Instant) (cancelled : Bool) :
    (op : Refresh.steps.Op) → FeedState → Step (Refresh.steps.Answer op) × FeedState
  | .pause _, f => (Step.resumed cancelled, f)
  | op, f => startStep now cancelled op f

def access (now : Instant) (op : Cache.accesses.Op) (f : FeedState) :
    Step (Cache.accesses.Answer op) × FeedState :=
  let r := Storage.access f.slice now op f.storage
  (.ofAnswer? r.1, { f with storage := r.2 })

def handler : Handler FeedState (Refresh.steps.sum Cache.accesses) :=
  Handler.sum ⟨startStep, resumeStep⟩ ⟨fun now _ => access now, fun now _ => access now⟩

end FeedState

/-- The result of a job of a feed. -/
inductive FeedResult where
  | refreshed (r : Except RefreshError Nat)
  | got (r : Except RefreshError (Bytes × Cache.Status))
  | lookedUp (r : Except RefreshError Cache.Lookup)

def FeedResult.isSuccess : FeedResult → Bool
  | .refreshed r => Refresh.succeeded r
  | _ => false

def feedRequests (C : Signature) : Signature := (Refresh.steps.sum Cache.accesses).sum C

/-- A client that runs in surroundings of its own, with what handles them. -/
structure ClientMachine (κ : Type) (C : Signature) where
  handler : Handler κ C
  method : Client.Method C

/-- A running feed with a client whose surroundings have the state `κ`. -/
abbrev RunningFeed (κ : Type) (C : Signature) :=
  Scheduler (FeedState × κ) (feedRequests C) FeedResult

namespace RunningFeed

variable {κ : Type} {C : Signature}

def carryRefresh (c : ClientMachine κ C) :
    (op : Refresh.requests.Op) → Program (feedRequests C) (Refresh.requests.Answer op)
  | .inl op => Program.call (S := feedRequests C) (.inl (.inl op))
  | .inr (.chunk ids) => (c.method ids).inSecond

def carryReading (c : ClientMachine κ C) :
    (op : Feed.readings.Op) → Program (feedRequests C) (Feed.readings.Answer op)
  | .inl op => Program.call (S := feedRequests C) (.inl (.inr op))
  | .inr (.chunk ids) => (c.method ids).inSecond

def refresh (c : ClientMachine κ C) (plan : Refresh.Plan) (started : Instant) (tier : Tier) :
    Program (feedRequests C) FeedResult :=
  ((Refresh.run plan tier started).interpret (carryRefresh c)).bind fun r => .done (.refreshed r)

def reading {α : Type} (c : ClientMachine κ C) (wrap : α → FeedResult)
    (p : Program Feed.readings α) : Program (feedRequests C) FeedResult :=
  (p.interpret (carryReading c)).bind fun r => .done (wrap r)

/-- A tick: what is due is claimed, and its refreshes are started. -/
def tick (c : ClientMachine κ C) (now : Instant) (s : FeedState × κ) :
    List (Program (feedRequests C) FeedResult) × (FeedState × κ) :=
  let r := s.1.schedule.claimDue now
  (r.1.map (refresh c s.1.plan now), { s.1 with schedule := r.2 }, s.2)

def machine (c : ClientMachine κ C) :
    Machine (FeedState × κ) (feedRequests C) FeedResult where
  toHandler := Handler.sum FeedState.handler.onFirst c.handler.onSecond
  ring := tick c

def feed (w : RunningFeed κ C) : FeedState := w.state.1

def setFeed (w : RunningFeed κ C) (f : FeedState) : RunningFeed κ C := { w with state := (f, w.state.2) }

def client (w : RunningFeed κ C) : κ := w.state.2

def setClient (w : RunningFeed κ C) (k : κ) : RunningFeed κ C := { w with state := (w.state.1, k) }

def check (c : ClientMachine κ C) (w : RunningFeed κ C) (token : Nat) :
    List String × RunningFeed κ C :=
  let r := w.feed.schedule.claimDue w.now
  let w := setFeed w { w.feed with schedule := r.2 }
  (r.1.map Tier.name, w.startAll token (r.1.map (refresh c w.feed.plan w.now)))

/-- Releases what is stuck at a point in time; the names released are returned. -/
def watchdog (w : RunningFeed κ C) (now : Instant) : List String × RunningFeed κ C :=
  let r := w.feed.schedule.watchdog now
  (r.1, setFeed w { w.feed with schedule := r.2 })

/-- Starts some refreshes under a token; the numbers of their jobs are returned. -/
def startEach (c : ClientMachine κ C) (token : Nat) :
    List Tier → RunningFeed κ C → List Nat × RunningFeed κ C
  | [], w => ([], w)
  | t :: rest, w =>
    let r := w.start token (refresh c w.feed.plan w.now t)
    let more := startEach c token rest r.2
    (r.1 :: more.1, more.2)

/-- Refreshes everything idle and waits for all of it. There is no result if a refresh breaks down. -/
def force (c : ClientMachine κ C) (w : RunningFeed κ C) (token : Nat) :
    Option (Except RefreshError Unit) × RunningFeed κ C :=
  let claimed := w.feed.schedule.claimIdle w.now
  let w := setFeed w { w.feed with schedule := claimed.2 }
  let started := startEach c token claimed.1 w
  let w := started.2.await (machine c) started.1
  let ends := (claimed.1.zip started.1).mapM fun p =>
    (w.result? p.2).map fun r => (p.1.name, r.isSuccess)
  (ends.map Schedule.verdict, { w with results := [] })

def get (c : ClientMachine κ C) (w : RunningFeed κ C) (token : Nat) (readThrough : Bool)
    (id : String) : Option (Except RefreshError (Bytes × Cache.Status)) × RunningFeed κ C :=
  let r := w.complete (machine c) token (reading c .got (Feed.get readThrough id))
  match r.1 with
  | some (.got result) => (some result, r.2)
  | _ => (none, r.2)

def getMultiple (c : ClientMachine κ C) (w : RunningFeed κ C) (token : Nat) (ids : List String) :
    Option (Except RefreshError Cache.Lookup) × RunningFeed κ C :=
  let r := w.complete (machine c) token (reading c .lookedUp (Feed.getMultiple ids))
  match r.1 with
  | some (.lookedUp result) => (some result, r.2)
  | _ => (none, r.2)

def run (w : RunningFeed κ C) (token : Nat) : RunningFeed κ C := w.setAlarm token Schedule.tickInterval

end RunningFeed

end MarketFeed.Simulation
