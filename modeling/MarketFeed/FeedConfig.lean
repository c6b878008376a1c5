import MarketFeed.ChunkPlan
import MarketFeed.Exchange
import MarketFeed.KeyRing
import MarketFeed.RefreshError
import MarketFeed.Tier.Validation
/-!
Everything one feed needs to be told, and which configurations are accepted. A feed without tiers
refreshes the whole ranked list at one interval.
-/

set_option autoImplicit false
set_option relaxedAutoImplicit false

namespace MarketFeed

structure FeedConfig where
  name : String
  endpoint : Endpoint
  ttlSecs : UInt64 := 300
  chunk : ChunkConfig := {}
  updateIntervalSecs : UInt64 := 60
  tiers : List TierConfig := []
  readThrough : Bool := true
  retry : RetryConfig := {}
  keys : KeyRing.Config := {}
  deriving DecidableEq

namespace FeedConfig

def withTier (c : FeedConfig) (t : TierConfig) : FeedConfig := { c with tiers := c.tiers ++ [t] }

def ttl (c : FeedConfig) : Duration := Duration.ofSeconds c.ttlSecs.toNat

def updateInterval (c : FeedConfig) : Duration := Duration.ofSeconds c.updateIntervalSecs.toNat

def isTiered (c : FeedConfig) : Bool := !c.tiers.isEmpty

def tierList (c : FeedConfig) : List Tier := c.tiers.map Tier.ofConfig

inductive Fault where
  | blankName
  | template (e : FetchError)
  | zeroChunkSize
  | zeroIdsLength
  | zeroTtl
  | zeroConnectionTimeout
  | zeroRequestTimeout
  | tiers (f : Tier.Fault)
  | zeroInterval

def Fault.message (name : String) : Fault → String
  | .blankName => "fetcher name must not be empty"
  | .template e => of e.message
  | .zeroChunkSize => of "chunk_size must be positive"
  | .zeroIdsLength => of "max_ids_len must be positive"
  | .zeroTtl => of "ttl_secs must be positive"
  | .zeroConnectionTimeout => of "retry.connection_timeout_ms must be positive"
  | .zeroRequestTimeout => of "retry.request_timeout_ms must be positive"
  | .tiers f => of f.message
  | .zeroInterval => of "update_interval_secs must be positive"
where
  of (m : String) : String := "fetcher '" ++ name ++ "': " ++ m

/-- The fault of the schedule: of the tiers if there are any, otherwise of the one interval. -/
def scheduleFault? (c : FeedConfig) : Option Fault :=
  if c.isTiered then (Tier.validate c.tierList).map Fault.tiers
  else if c.updateIntervalSecs = 0 then some .zeroInterval
  else none

/-- The first fault of a configuration. -/
def fault? (c : FeedConfig) : Option Fault :=
  if Text.isAllBlank c.name then some .blankName
  else match Endpoint.Locator.ofEndpoint c.endpoint with
    | .error e => some (.template e)
    | .ok _ =>
      if c.chunk.chunkSize = 0 then some .zeroChunkSize
      else if c.chunk.maxIdsLen = 0 then some .zeroIdsLength
      else if c.ttlSecs = 0 then some .zeroTtl
      else if c.retry.connectionTimeoutMs = 0 then some .zeroConnectionTimeout
      else if c.retry.requestTimeoutMs = 0 then some .zeroRequestTimeout
      else c.scheduleFault?

def validate (c : FeedConfig) : Except RefreshError Unit :=
  match c.fault? with
  | some f => .error (.invalidConfig (f.message c.name))
  | none => .ok ()

end FeedConfig

end MarketFeed
