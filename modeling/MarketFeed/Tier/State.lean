import MarketFeed.Tier
/-!
The state of one tier between and during refreshes. A tier is claimed when a refresh starts and
released when the refresh that holds the claim ends, or when it is stuck.
-/

set_option autoImplicit false
set_option relaxedAutoImplicit false

namespace MarketFeed.Tier

/-- When the last successful refresh ended, when the refresh that holds the claim started, whether the
tier is claimed, and whether a time of day of the last success and of the start is on record. -/
structure State where
  lastUpdate : Option Instant
  started : Option Instant
  isUpdating : Bool
  hasUpdated : Bool
  hasStarted : Bool
  deriving DecidableEq, Repr

namespace State

def idle : State := ⟨none, none, false, false, false⟩

/-- Not claimed, and at least one interval since the last success. -/
def isDue (s : State) (now : Instant) (interval : Duration) : Bool :=
  !s.isUpdating &&
    match s.lastUpdate with
    | none => true
    | some last => decide (interval.nanos ≤ (Instant.since now last).nanos)

/-- Claimed for longer than a timeout. -/
def isStuck (s : State) (now : Instant) (timeout : Duration) : Bool :=
  match s.isUpdating, s.started with
  | true, some started => decide (timeout.nanos < (Instant.since now started).nanos)
  | _, _ => false

def claim (s : State) (now : Instant) : State :=
  { s with started := some now, isUpdating := true, hasStarted := true }

def release (s : State) : State :=
  { s with started := none, isUpdating := false, hasStarted := false }

/-- The end of the refresh that started at `started`. It releases the claim only if it holds it; a
success counts in any case, and never moves the last success back. -/
def finish (s : State) (started : Instant) (succeeded : Bool) (now : Instant) : State :=
  let s := if s.started = some started then s.release else s
  if succeeded then
    { s with
      hasUpdated := true
      lastUpdate := some (match s.lastUpdate with
        | none => now
        | some last => max last now) }
  else s

end State

/-- What is told of a tier: its range and interval, whether it is being refreshed, and whether a
success and a start are on record. -/
structure Status where
  name : String
  idFrom : Nat
  idTo : Nat
  intervalSecs : Nat
  isUpdating : Bool
  hasUpdated : Bool
  hasStarted : Bool
  deriving DecidableEq, Repr

def status (t : Tier) (s : State) : Status where
  name := t.name
  idFrom := t.idFrom
  idTo := t.idTo
  intervalSecs := t.interval.wholeSeconds
  isUpdating := s.isUpdating
  hasUpdated := s.hasUpdated
  hasStarted := s.hasStarted

end MarketFeed.Tier
