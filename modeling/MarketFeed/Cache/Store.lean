import MarketFeed.Duration
import MarketFeed.Table
import MarketFeed.Text.Utf8
/-!
A store of values that expire. An entry can be read before its expiry and no longer; an expired entry
stays in the store until it is asked for or the store is purged.
-/

set_option autoImplicit false
set_option relaxedAutoImplicit false

namespace MarketFeed.Cache

structure Entry where
  value : Bytes
  expires : Instant
  deriving DecidableEq

structure Store where
  entries : Table Entry
  deriving DecidableEq

/-- What was found of some keys, and which were not, in the order asked and with repetitions. -/
structure Found where
  found : Table Bytes
  missing : List String
  deriving DecidableEq

namespace Store

def empty : Store := ⟨∅⟩

def size (s : Store) : Nat := s.entries.size

def live? (s : Store) (now : Instant) (key : String) : Option Bytes :=
  match s.entries.get? key with
  | some e => if now < e.expires then some e.value else none
  | none => none

def put (s : Store) (key : String) (e : Entry) : Store := ⟨s.entries.insert key e⟩

/-- Drops the entry of a key if it has expired at `now`. -/
def dropExpired (s : Store) (now : Instant) (key : String) : Store :=
  match s.entries.get? key with
  | some e => if e.expires ≤ now then ⟨s.entries.erase key⟩ else s
  | none => s

def look (s : Store) (now : Instant) (keys : List String) : Found where
  found := Table.ofList (keys.filterMap fun k => (s.live? now k).map fun v => (k, v))
  missing := keys.filter fun k => (s.live? now k).isNone

/-- Reads some keys at `now`; expired entries asked for are dropped. -/
def get (s : Store) (now : Instant) (keys : List String) : Found × Store :=
  (s.look now keys, keys.foldl (fun acc k => acc.dropExpired now k) s)

def putAll (s : Store) (data : Table Bytes) (expires : Instant) : Store :=
  data.entries.foldl (fun acc e => acc.put e.1 ⟨e.2, expires⟩) s

/-- Stores some values from `now` on for a span, if their expiry can be told. -/
def set? (s : Store) (now : Instant) (data : Table Bytes) (ttl : Duration) : Option Store :=
  (Instant.after? now ttl).map (s.putAll data)

def purge (s : Store) (now : Instant) : Store :=
  ⟨s.entries.filter fun _ e => decide (now < e.expires)⟩

def expiredCount (s : Store) (now : Instant) : Nat := s.size - (s.purge now).size

end Store

end MarketFeed.Cache
