import MarketFeed.Cache.Slice
/-!
A store that may refuse to be read or to be written, and reading through it from something that
always loads the same. Writing what expires beyond the horizon of the clock breaks down: there is no
answer then, and the store is left as it was.
-/

set_option autoImplicit false
set_option relaxedAutoImplicit false

namespace MarketFeed.Simulation

/-- A store, and whether it refuses to be read or written. -/
structure Storage where
  store : Cache.Store
  readFails : Bool
  writeFails : Bool
  deriving DecidableEq

namespace Storage

def empty : Storage := ⟨.empty, false, false⟩

/-- Takes over what a write leaves, unless writing is refused. -/
def accept (s : Storage) (written : Option Cache.Store) :
    Option (Except RefreshError Unit) × Storage :=
  if s.writeFails then (some (.error (.cache "write refused")), s)
  else match written with
    | some store => (some (.ok ()), { s with store })
    | none => (none, s)

/-- Stores some values, unless that is refused. -/
def set (s : Storage) (now : Instant) (data : Table Bytes) (ttl : Duration) :
    Option (Except RefreshError Unit) × Storage :=
  s.accept (s.store.set? now data ttl)

def get (s : Storage) (now : Instant) (keys : List String) :
    Except RefreshError Cache.Found × Storage :=
  if s.readFails then (.error (.cache "read refused"), s)
  else
    let r := s.store.get now keys
    (.ok r.1, { s with store := r.2 })

def access (slice : Cache.Slice) (now : Instant) :
    (op : Cache.accesses.Op) → Storage → Option (Cache.accesses.Answer op) × Storage
  | .read ids, s =>
    if s.readFails then
      (some (.error (.cache "read refused") : Except RefreshError Cache.Lookup), s)
    else
      let r := slice.read s.store now ids
      (some (.ok r.1 : Except RefreshError Cache.Lookup), { s with store := r.2 })
  | .write data, s =>
    if data.isEmpty then (some (.ok () : Except RefreshError Unit), s)
    else s.accept (slice.write? s.store now data)

def read (s : Storage) (slice : Cache.Slice) (now : Instant) (ids : List String) :
    Option (Except RefreshError Cache.Lookup) × Storage :=
  access slice now (.read ids) s

def write (s : Storage) (slice : Cache.Slice) (now : Instant) (data : Table Bytes) :
    Option (Except RefreshError Unit) × Storage :=
  access slice now (.write data) s

def purge (s : Storage) (now : Instant) : Nat × Storage :=
  (s.store.expiredCount now, { s with store := s.store.purge now })

/-- What reading through asks, if every load ends with `loaded`; the number of loads is kept. -/
def answerThrough (slice : Cache.Slice) (now : Instant) (loaded : Except RefreshError Bytes) :
    Nat × Storage → (op : Cache.requests.Op) → (Nat × Storage) × Option (Cache.requests.Answer op)
  | (loads, s), .inl op =>
    let r := access slice now op s
    ((loads, r.2), r.1)
  | (loads, s), .inr (.one _) => ((loads + 1, s), some (loaded : Except RefreshError Bytes))

def getOrLoad (s : Storage) (slice : Cache.Slice) (now : Instant) (id : String)
    (loaded : Except RefreshError Bytes) :
    Option (Except RefreshError (Bytes × Cache.Status) × Nat) × Storage :=
  let r := (Cache.getOrLoad id).run? (answerThrough slice now loaded) (0, s)
  (r.2.map fun result => (result, r.1.1), r.1.2)

end Storage

end MarketFeed.Simulation
