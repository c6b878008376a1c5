import MarketFeed.RefreshEvent
import MarketFeed.Table
/-!
A bus that hands each announcement to every subscriber. It holds the latest announcements, as many as
its ring has places; a subscriber that has fallen behind goes on with the oldest one held.
-/

set_option autoImplicit false
set_option relaxedAutoImplicit false

namespace MarketFeed

/-- The places of the ring, how many announcements were made so far, the latest of them with the
oldest first, the position from which each subscriber reads on, and whether the bus is still open. -/
structure EventBus where
  places : Nat
  published : Nat
  held : List RefreshEvent
  cursors : Table Nat
  isOpen : Bool
  deriving DecidableEq

namespace EventBus

/-- The capacity of a bus for which none is given. -/
def standardCapacity : Nat := 256

/-- The places for a capacity: the next power of two, and at least one. -/
def placesFor (capacity : Nat) : Nat :=
  if capacity ≤ 1 then 1 else Nat.pow 2 ((capacity - 1).log2 + 1)

/-- The most places that a ring can have. -/
def mostPlaces : Nat := Nat.pow 2 56

def ofCapacity (capacity : Nat) : EventBus := ⟨placesFor capacity, 0, [], ∅, true⟩

def ofCapacity? (capacity : Nat) : Option EventBus :=
  if placesFor capacity ≤ mostPlaces then some (ofCapacity capacity) else none

def subscriberCount (b : EventBus) : Nat := b.cursors.size

/-- Takes a subscriber in, who will read what is announced from now on. -/
def subscribe (b : EventBus) (name : String) : EventBus :=
  if b.isOpen then { b with cursors := b.cursors.insert name b.published } else b

def unsubscribe (b : EventBus) (name : String) : EventBus :=
  { b with cursors := b.cursors.erase name }

def publish (b : EventBus) (event : RefreshEvent) : EventBus :=
  if b.isOpen && !b.cursors.isEmpty then
    let held := b.held ++ [event]
    { b with published := b.published + 1, held := held.drop (held.length - b.places) }
  else b

def close (b : EventBus) : EventBus := { b with isOpen := false }

inductive Received where
  | event (e : RefreshEvent)
  | nothingYet
  | closed
  | unknown
  deriving DecidableEq, Repr

def oldest (b : EventBus) : Nat := b.published - b.held.length

def receive (b : EventBus) (name : String) : Received × EventBus :=
  match b.cursors.get? name with
  | none => (.unknown, b)
  | some cursor =>
    let position := max cursor b.oldest
    match b.held[position - b.oldest]? with
    | some e => (.event e, { b with cursors := b.cursors.insert name (position + 1) })
    | none => (if b.isOpen then .nothingYet else .closed, b)

def drain (b : EventBus) (name : String) : List RefreshEvent × EventBus :=
  match b.cursors.get? name with
  | none => ([], b)
  | some cursor =>
    (b.held.drop (cursor - b.oldest), { b with cursors := b.cursors.insert name b.published })

end EventBus

end MarketFeed
