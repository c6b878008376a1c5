import MarketFeed.Cache.Store
import MarketFeed.Program
import MarketFeed.RefreshError
/-!
One feed's part of a store. Identifiers are stored under keys that begin with the feed's namespace;
everything is stored for the feed's time to live.
-/

set_option autoImplicit false
set_option relaxedAutoImplicit false

namespace MarketFeed.Cache

/-- How much of what was asked for was found. -/
inductive Status where
  | full
  | partly
  | miss
  deriving DecidableEq, Repr

namespace Status

def word : Status → String
  | .full => "full"
  | .partly => "partial"
  | .miss => "miss"

def classify (found missing : Nat) : Status :=
  if missing = 0 then .full else if found = 0 then .miss else .partly

end Status

def key (namespace_ id : String) : String := namespace_ ++ ":id:" ++ id

structure Lookup where
  found : Table Bytes
  missing : List String
  status : Status
  deriving DecidableEq

/-- A namespace and a time to live. -/
structure Slice where
  scope : String
  ttl : Duration
  deriving DecidableEq

namespace Slice

def keyed (s : Slice) (data : Table Bytes) : Table Bytes :=
  Table.ofList (data.entries.map fun e => (key s.scope e.1, e.2))

/-- Stores some payloads from `now` on, if their expiry can be told; without payloads nothing
happens. -/
def write? (s : Slice) (store : Store) (now : Instant) (data : Table Bytes) : Option Store :=
  if data.isEmpty then some store else store.set? now (s.keyed data) s.ttl

def gather (s : Slice) (ids : List String) (answer : Found) : Lookup :=
  let found := ids.filterMap fun id => (answer.found.get? (key s.scope id)).map fun v => (id, v)
  let missing := ids.filter fun id => (answer.found.get? (key s.scope id)).isNone
  ⟨Table.ofList found, missing, Status.classify found.length missing.length⟩

/-- Reads some identifiers at `now`, each once, in the order in which they first occur. -/
def read (s : Slice) (store : Store) (now : Instant) (ids : List String) : Lookup × Store :=
  let ids := ids.eraseDups
  let answer := store.get now (ids.map (key s.scope))
  (s.gather ids answer.1, answer.2)

end Slice

/-- Uses of a slice: to read some identifiers and to write some payloads. -/
inductive Access where
  | read (ids : List String)
  | write (data : Table Bytes)

def Access.Answer : Access → Type
  | .read _ => Except RefreshError Lookup
  | .write _ => Except RefreshError Unit

def accesses : Signature := ⟨Access, Access.Answer⟩

inductive Load where
  | one (id : String)
  deriving DecidableEq, Repr

def loads : Signature := ⟨Load, fun _ => Except RefreshError Bytes⟩

def requests : Signature := accesses.sum loads

def read (ids : List String) : Program requests (Except RefreshError Lookup) :=
  Program.call (S := requests) (.inl (.read ids))

def load (id : String) : Program requests (Except RefreshError Bytes) :=
  Program.call (S := requests) (.inr (.one id))

def write (data : Table Bytes) : Program requests (Except RefreshError Unit) :=
  Program.call (S := requests) (.inl (.write data))

def getOnly (id : String) : Program requests (Except RefreshError (Bytes × Status)) := do
  match ← read [id] with
  | .error e => return .error e
  | .ok lookup =>
    match lookup.found.get? id with
    | some value => return .ok (value, .full)
    | none => return .error (.notFound id)

def getOrLoad (id : String) : Program requests (Except RefreshError (Bytes × Status)) := do
  match ← read [id] with
  | .error e => return .error e
  | .ok lookup =>
    match lookup.found.get? id with
    | some value => return .ok (value, .full)
    | none =>
      match ← load id with
      | .error e => return .error e
      | .ok value =>
        match ← write (Table.empty.insert id value) with
        | .error e => return .error e
        | .ok () => return .ok (value, .miss)

end MarketFeed.Cache
