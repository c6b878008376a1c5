import MarketFeed.Duration
import MarketFeed.Table.Lemmas
import MarketFeed.Program
import MarketFeed.Json.Printer
import MarketFeed.Json.Meaning
import MarketFeed.RefreshError
import MarketFeed.ChunkPlan
import MarketFeed.ApiClient
import MarketFeed.ChunkFetch
import MarketFeed.Cache.Slice
import MarketFeed.EventBus
import MarketFeed.Ranking
import MarketFeed.Tier.Validation
import MarketFeed.Schedule
import MarketFeed.Feed
import MarketFeed.FeedConfig.Codec
import MarketFeed.Environment
import MarketFeed.Simulation.Rotating
import MarketFeed.Simulation.Chunking
import MarketFeed.Simulation.Calling
import MarketFeed.Simulation.Storage
import MarketFeed.Simulation.RunningFeed
import MarketFeed.KeyRing.Rotation
import MarketFeed.Proofs.Schedule.Effects
import MarketFeed.Proofs.Schedule.Ownership
import MarketFeed.Proofs.ApiClient.Provenance
import MarketFeed.Proofs.Cache.Entries
import MarketFeed.Proofs.ChunkFetch.Cancellation
import MarketFeed.Proofs.Feed.Effects
import MarketFeed.Proofs.Feed.Freshness
import MarketFeed.Proofs.Refresh.Readiness
import MarketFeed.Proofs.Schedule.Pace
import MarketFeed.Proofs.ApiClient.Requests
import MarketFeed.Proofs.Cache.Isolation
import MarketFeed.Proofs.Json.Grammar
import MarketFeed.Proofs.Text.Utf8
import MarketFeed.Proofs.Json.Leaves
import MarketFeed.Proofs.Json.Reading
import MarketFeed.Proofs.Payloads.Splitting
import MarketFeed.Proofs.Tier.Ranks
import MarketFeed.Proofs.Refresh.Ranks
import MarketFeed.Proofs.Refresh.Order
import MarketFeed.Proofs.KeyRing.Sessions
import MarketFeed.Proofs.KeyRing.Benching
import MarketFeed.Proofs.ApiClient.Sessions
import MarketFeed.Proofs.ApiClient.Rotation
import MarketFeed.Proofs.KeyRing.Tokens
import MarketFeed.Proofs.ApiClient.Pace
import MarketFeed.Proofs.Cache.Expiry
import MarketFeed.Proofs.Feed.Acceptance
import MarketFeed.Proofs.Endpoint.Identifiers
import MarketFeed.Proofs.ChunkPlan.Limits
import MarketFeed.Proofs.EventBus.Delivery
import MarketFeed.Proofs.KeyRing.Outcomes
import MarketFeed.Proofs.FeedConfig.RoundTrip
import MarketFeed.Proofs.Exchange.Scripts
import MarketFeed.Proofs.ChunkFetch.Sequence
import MarketFeed.Proofs.Endpoint.Overriding
import MarketFeed.Proofs.Refresh.Yield
import MarketFeed.Proofs.Payloads.Elements
import MarketFeed.Proofs.KeyRing.Acquiring
import MarketFeed.Proofs.Cache.RoundTrip
import MarketFeed.Proofs.Feed.ReadThrough
import MarketFeed.Proofs.Simulation.Scheduling
import MarketFeed.Proofs.Simulation.Bystanders
import MarketFeed.Proofs.Feed.Forcing
import MarketFeed.Proofs.Cooldown.Failures
import MarketFeed.Proofs.Simulation.Tracing
import MarketFeed.Proofs.KeyRing.Offering
import MarketFeed.Proofs.Endpoint.Granularity
import MarketFeed.Proofs.KeyRing.Cancelling
import MarketFeed.Proofs.Exchange.Pauses
import MarketFeed.Proofs.Cache.Sharing
import MarketFeed.Proofs.Refresh.Swaps
