import MarketFeed.RefreshError
import MarketFeed.Table
import MarketFeed.Tier.State
/-!
The schedule of one feed: which tiers are claimed for a refresh, when, and how claims end. A tick
releases what is stuck and claims what is due; a forced update claims everything that is idle.
-/

set_option autoImplicit false
set_option relaxedAutoImplicit false

namespace MarketFeed

/-- The tiers in the order configured, and the state of each name. -/
structure Schedule where
  tiers : List Tier
  states : Table Tier.State
  deriving DecidableEq

namespace Schedule

/-- How often the tiers are looked at. -/
def tickInterval : Duration := Duration.ofSeconds 2

def wholeName : String := "all"

/-- The only tier of a feed without tiers: every rank. -/
def wholeTier (interval : Duration) : Tier := ⟨wholeName, 1, UInt64.size - 1, interval, false⟩

def ofTiers (tiers : List Tier) : Schedule :=
  ⟨tiers, Table.ofList (tiers.map fun t => (t.name, Tier.State.idle))⟩

def stateOf (s : Schedule) (name : String) : Tier.State := (s.states.get? name).getD .idle

def withState (s : Schedule) (name : String) (state : Tier.State) : Schedule :=
  { s with states := s.states.insert name state }

def statuses (s : Schedule) : List Tier.Status := s.tiers.map fun t => t.status (s.stateOf t.name)

/-- Releases the stuck ones among some tiers; their names are returned. -/
def releaseStuck (now : Instant) : List Tier → Schedule → List String × Schedule
  | [], s => ([], s)
  | t :: rest, s =>
    let state := s.stateOf t.name
    if state.isStuck now t.stuckTimeout then
      let r := releaseStuck now rest (s.withState t.name state.release)
      (t.name :: r.1, r.2)
    else releaseStuck now rest s

/-- Releases every stuck tier; their names are returned in the order configured. -/
def watchdog (s : Schedule) (now : Instant) : List String × Schedule := releaseStuck now s.tiers s

/-- Claims those of some tiers whose state satisfies `wanted`. -/
def claimWhere (wanted : Tier → Tier.State → Bool) (now : Instant) :
    List Tier → Schedule → List Tier × Schedule
  | [], s => ([], s)
  | t :: rest, s =>
    let state := s.stateOf t.name
    if wanted t state then
      let r := claimWhere wanted now rest (s.withState t.name (state.claim now))
      (t :: r.1, r.2)
    else claimWhere wanted now rest s

/-- Releases what is stuck and claims what is due; the claimed tiers are returned. -/
def claimDue (s : Schedule) (now : Instant) : List Tier × Schedule :=
  let s := (s.watchdog now).2
  claimWhere (fun t state => state.isDue now t.interval) now s.tiers s

/-- Releases what is stuck and claims what is idle; the claimed tiers are returned. -/
def claimIdle (s : Schedule) (now : Instant) : List Tier × Schedule :=
  let s := (s.watchdog now).2
  claimWhere (fun _ state => !state.isUpdating) now s.tiers s

/-- The end of the refresh of a tier that started at `started`. -/
def finish (s : Schedule) (name : String) (started : Instant) (succeeded : Bool) (now : Instant) :
    Schedule :=
  match s.states.get? name with
  | none => s
  | some state => s.withState name (state.finish started succeeded now)

/-- What a forced update comes to, given how the refresh of each claimed tier ended. -/
def verdict (ends : List (String × Bool)) : Except RefreshError Unit :=
  let failed := (ends.filter fun e => !e.2).map Prod.fst
  if failed.isEmpty then .ok () else .error (.refreshFailed failed)

end Schedule

end MarketFeed
