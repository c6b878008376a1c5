import MarketFeed.ApiClient
import MarketFeed.Cache.Slice
import MarketFeed.Client
import MarketFeed.FeedConfig
import MarketFeed.Refresh
import MarketFeed.Schedule
/-!
One feed: how its configuration sets up its schedule, its part of the cache, its client and its
refreshes, and how single payloads are read, from the cache alone or through it.
-/

set_option autoImplicit false
set_option relaxedAutoImplicit false

namespace MarketFeed.Feed

/-- The tiers of a feed: those configured, or one for every rank. -/
def tiersOf (c : FeedConfig) : List Tier :=
  if c.isTiered then c.tierList else [Schedule.wholeTier c.updateInterval]

def scheduleOf (c : FeedConfig) : Schedule := Schedule.ofTiers (tiersOf c)

def sliceOf (c : FeedConfig) : Cache.Slice := ⟨c.name, c.ttl⟩

/-- The client of a feed, or the fault of its path. -/
def clientOf (c : FeedConfig) : Except FetchError ApiClient :=
  (Endpoint.Locator.ofEndpoint c.endpoint).map fun l => ⟨c.name, l, c.keys.policy, c.retry⟩

def planOf (c : FeedConfig) (mode : Endpoint.Mode) : Refresh.Plan := ⟨c.name, c.isTiered, mode, c.chunk⟩

/-- What reading a feed asks for: its part of the cache and its client. -/
def readings : Signature := Cache.accesses.sum Client.fetches

def loadOne : (op : Cache.loads.Op) → Program Client.fetches (Cache.loads.Answer op)
  | .one id => do
    let result ← Program.call (S := Client.fetches) (.chunk [id])
    match (result : Except FetchError Payloads) with
    | .error e => return .error (RefreshError.fetch e)
    | .ok data =>
      match data.get? id with
      | some value => return .ok value
      | none => return .error (RefreshError.notFound id)

/-- The payload of one identifier: a missing one is fetched and stored if the feed reads through. -/
def get (readThrough : Bool) (id : String) :
    Program readings (Except RefreshError (Bytes × Cache.Status)) :=
  (if readThrough then Cache.getOrLoad id else Cache.getOnly id).interpretSecond loadOne

def getMultiple (ids : List String) : Program readings (Except RefreshError Cache.Lookup) :=
  (Cache.read ids).interpretSecond loadOne

end MarketFeed.Feed
