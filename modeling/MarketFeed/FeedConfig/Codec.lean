import MarketFeed.FeedConfig
import MarketFeed.Json.Record
/-!
Configurations as documents. Each type has a writer, which writes every field, and a reader, which
puts in the default for a field that has one and is not written. The fields of the chunk limits stand
among those of the feed.
-/

set_option autoImplicit false
set_option relaxedAutoImplicit false

namespace MarketFeed

open Json (Value Record)

namespace Credential

def Kind.decode? (v : Value) : Option Kind := v.word?.bind Kind.ofWord?

def Kind.encode (k : Kind) : Value := .string k.word

def encode (c : Credential) : Value :=
  .object [("secret", .string c.secret), ("kind", c.kind.encode)]

def decode? (v : Value) : Option Credential := do
  let r ← Record.ofValue? 2 v
  let secret ← r.required 0 "secret" Value.text?
  let kind ← r.required 1 "kind" Kind.decode?
  return ⟨secret, kind⟩

end Credential

namespace ChunkConfig

def members (c : ChunkConfig) : List (String × Value) :=
  [("chunk_size", .ofNat c.chunkSize.toNat), ("max_ids_len", .ofNat c.maxIdsLen.toNat),
    ("chunk_delay_ms", .ofNat c.chunkDelayMs.toNat)]

def encode (c : ChunkConfig) : Value := .object c.members

def ofRecord? (r : Record) : Option ChunkConfig := do
  let standard : ChunkConfig := {}
  let chunkSize ← r.optional 0 "chunk_size" Value.uint64? standard.chunkSize
  let maxIdsLen ← r.optional 1 "max_ids_len" Value.uint64? standard.maxIdsLen
  let chunkDelayMs ← r.optional 2 "chunk_delay_ms" Value.uint64? standard.chunkDelayMs
  return ⟨chunkSize, maxIdsLen, chunkDelayMs⟩

def decode? (v : Value) : Option ChunkConfig := (Record.ofValue? 3 v).bind ofRecord?

end ChunkConfig

namespace Endpoint

def Mode.encode (m : Mode) : Value := .string m.word

def Mode.decode? (v : Value) : Option Mode := v.word?.bind Mode.ofWord?

def encodeParams (t : Table String) : Value :=
  .object (t.entries.map fun e => (e.1, .string e.2))

def decodeParams? : Value → Option (Table String)
  | .object ms => (ms.mapM fun (m : String × Value) => m.2.text?.map fun s => (m.1, s)).map Table.ofList
  | _ => none

def encode (e : Endpoint) : Value :=
  .object [("path", .string e.path), ("base_url", .string e.baseUrl),
    ("pro_base_url", .string e.proBaseUrl), ("query_params", encodeParams e.queryParams),
    ("paid_key_param", .string e.paidKeyParam), ("demo_key_param", .string e.demoKeyParam),
    ("mode", (e.mode.map Mode.encode).getD .null)]

def decode? (v : Value) : Option Endpoint := do
  let r ← Record.ofValue? 7 v
  let path ← r.required 0 "path" Value.text?
  let standard : Endpoint := { path }
  let baseUrl ← r.optional 1 "base_url" Value.text? standard.baseUrl
  let proBaseUrl ← r.optional 2 "pro_base_url" Value.text? standard.proBaseUrl
  let queryParams ← r.optional 3 "query_params" decodeParams? standard.queryParams
  let paidKeyParam ← r.optional 4 "paid_key_param" Value.text? standard.paidKeyParam
  let demoKeyParam ← r.optional 5 "demo_key_param" Value.text? standard.demoKeyParam
  let mode ← r.optional 6 "mode" (Value.orNull? Mode.decode?) standard.mode
  return ⟨path, baseUrl, proBaseUrl, queryParams, paidKeyParam, demoKeyParam, mode⟩

end Endpoint

namespace RetryConfig

def encode (c : RetryConfig) : Value :=
  .object [("max_retries", .ofNat c.maxRetries.toNat),
    ("base_backoff_ms", .ofNat c.baseBackoffMs.toNat),
    ("connection_timeout_ms", .ofNat c.connectionTimeoutMs.toNat),
    ("request_timeout_ms", .ofNat c.requestTimeoutMs.toNat)]

def decode? (v : Value) : Option RetryConfig := do
  let r ← Record.ofValue? 4 v
  let standard : RetryConfig := {}
  let maxRetries ← r.optional 0 "max_retries" Value.uint32? standard.maxRetries
  let baseBackoffMs ← r.optional 1 "base_backoff_ms" Value.uint64? standard.baseBackoffMs
  let connectionTimeoutMs ←
    r.optional 2 "connection_timeout_ms" Value.uint64? standard.connectionTimeoutMs
  let requestTimeoutMs ←
    r.optional 3 "request_timeout_ms" Value.uint64? standard.requestTimeoutMs
  return ⟨maxRetries, baseBackoffMs, connectionTimeoutMs, requestTimeoutMs⟩

end RetryConfig

namespace RateLimit

def encode (l : RateLimit) : Value :=
  .object [("requests_per_minute", .ofNat l.requestsPerMinute.toNat),
    ("burst", .ofNat l.burst.toNat)]

def decode? (v : Value) : Option RateLimit := do
  let r ← Record.ofValue? 2 v
  let requestsPerMinute ← r.required 0 "requests_per_minute" Value.uint32?
  let burst ← r.required 1 "burst" Value.uint32?
  return ⟨requestsPerMinute, burst⟩

def Policy.encode (p : Policy) : Value := .string p.word

def Policy.decode? (v : Value) : Option Policy := v.word?.bind Policy.ofWord?

def encodeAll (limits : Credential.PerKind (Option RateLimit)) : Value :=
  .object (Credential.Kind.all.filterMap fun k =>
    (limits.get k).map fun l => (k.word, l.encode))

def decodeMembers? : List (String × Value) → Credential.PerKind (Option RateLimit) →
    Option (Credential.PerKind (Option RateLimit))
  | [], limits => some limits
  | (name, v) :: rest, limits =>
    match Credential.Kind.ofWord? name, decode? v with
    | some kind, some limit => decodeMembers? rest (limits.set kind (some limit))
    | _, _ => none

def decodeAll? : Value → Option (Credential.PerKind (Option RateLimit))
  | .object ms => decodeMembers? ms (.const none)
  | _ => none

end RateLimit

namespace KeyRing.Config

def encode (c : Config) : Value :=
  .object [("try_anonymous_first", .bool c.tryAnonymousFirst),
    ("allow_anonymous", .bool c.allowAnonymous), ("policy", c.policy.encode),
    ("cooldown_secs", .ofNat c.cooldownSecs.toNat),
    ("rate_limits", RateLimit.encodeAll c.rateLimits)]

def decode? (v : Value) : Option Config := do
  let r ← Record.ofValue? 5 v
  let standard : Config := {}
  let tryAnonymousFirst ←
    r.optional 0 "try_anonymous_first" Value.bool? standard.tryAnonymousFirst
  let allowAnonymous ← r.optional 1 "allow_anonymous" Value.bool? standard.allowAnonymous
  let policy ← r.optional 2 "policy" RateLimit.Policy.decode? standard.policy
  let cooldownSecs ← r.optional 3 "cooldown_secs" Value.uint64? standard.cooldownSecs
  let rateLimits ← r.optional 4 "rate_limits" RateLimit.decodeAll? standard.rateLimits
  return ⟨tryAnonymousFirst, allowAnonymous, policy, cooldownSecs, rateLimits⟩

end KeyRing.Config

namespace TierConfig

def encode (t : TierConfig) : Value :=
  .object [("name", .string t.name), ("id_from", .ofNat t.idFrom.toNat),
    ("id_to", .ofNat t.idTo.toNat),
    ("update_interval_secs", .ofNat t.updateIntervalSecs.toNat),
    ("fetch_supplementary_ids", .bool t.fetchSupplementaryIds)]

def decode? (v : Value) : Option TierConfig := do
  let r ← Record.ofValue? 5 v
  let name ← r.required 0 "name" Value.text?
  let idFrom ← r.required 1 "id_from" Value.uint64?
  let idTo ← r.required 2 "id_to" Value.uint64?
  let updateIntervalSecs ← r.required 3 "update_interval_secs" Value.uint64?
  let fetchSupplementaryIds ← r.optional 4 "fetch_supplementary_ids" Value.bool? false
  return ⟨name, idFrom, idTo, updateIntervalSecs, fetchSupplementaryIds⟩

end TierConfig

namespace FeedConfig

def encode (c : FeedConfig) : Value :=
  .object ([("name", .string c.name), ("endpoint", c.endpoint.encode),
    ("ttl_secs", .ofNat c.ttlSecs.toNat)] ++ c.chunk.members ++
    [("update_interval_secs", .ofNat c.updateIntervalSecs.toNat),
    ("tiers", .array (c.tiers.map TierConfig.encode)), ("read_through", .bool c.readThrough),
    ("retry", c.retry.encode), ("rotator", c.keys.encode)])

def decode? (v : Value) : Option FeedConfig := do
  let r ← Record.ofObject? v
  let name ← r.required 0 "name" Value.text?
  let endpoint ← r.required 1 "endpoint" Endpoint.decode?
  let standard : FeedConfig := { name, endpoint }
  let ttlSecs ← r.optional 2 "ttl_secs" Value.uint64? standard.ttlSecs
  let chunk ← ChunkConfig.ofRecord? r
  let updateIntervalSecs ←
    r.optional 4 "update_interval_secs" Value.uint64? standard.updateIntervalSecs
  let tiers ← r.optional 5 "tiers" (Value.list? TierConfig.decode?) standard.tiers
  let readThrough ← r.optional 6 "read_through" Value.bool? standard.readThrough
  let retry ← r.optional 7 "retry" RetryConfig.decode? standard.retry
  let keys ← r.optional 8 "rotator" KeyRing.Config.decode? standard.keys
  return ⟨name, endpoint, ttlSecs, chunk, updateIntervalSecs, tiers, readThrough, retry, keys⟩

end FeedConfig

end MarketFeed
