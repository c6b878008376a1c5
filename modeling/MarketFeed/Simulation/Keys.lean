import MarketFeed.ApiClient
import MarketFeed.Simulation.Scheduler
/-!
A key ring among the surroundings of a program. A wait for a token ends at the first whole millisecond
at which the bucket should have one, and goes on if it still has none.
-/

set_option autoImplicit false
set_option relaxedAutoImplicit false

namespace MarketFeed.Simulation.Keys

variable {R : Type} [Quantity R]

/-- Tries to take a token; if there is none, waits unless cancelled. -/
def acquire (now : Instant) (cancelled : Bool) (kind : Credential.Kind) (k : KeyRing R) :
    Step Signal × KeyRing R :=
  let r := k.limiter.attempt now kind
  let k := { k with limiter := r.2 }
  match r.1 with
  | none => (.answer .elapsed, k)
  | some d =>
    if cancelled then (.answer .cancelled, k)
    else (.wait (Instant.timer now d), k)

def start (now : Instant) (cancelled : Bool) :
    (op : KeyRing.controls.Op) → KeyRing R → Step (KeyRing.controls.Answer op) × KeyRing R
  | .isCancelled, k => (Step.answer (α := Bool) cancelled, k)
  | .acquire kind, k => acquire now cancelled kind k
  | .tryAcquire kind, k =>
    let r := k.limiter.take now kind
    (Step.answer (α := Bool) r.1, { k with limiter := r.2 })
  | .markFailed secret, k => (Step.answer (α := Unit) (), k.markFailed now secret)
  | .markSucceeded secret, k => (Step.answer (α := Unit) (), k.markSucceeded secret)

/-- The end of a wait for a token. -/
def resume (now : Instant) (cancelled : Bool) :
    (op : KeyRing.controls.Op) → KeyRing R → Step (KeyRing.controls.Answer op) × KeyRing R
  | .acquire kind, k =>
    if cancelled then (Step.answer (α := Signal) .cancelled, k)
    else acquire now cancelled kind k
  | op, k => start now cancelled op k

def controls : Handler (KeyRing R) KeyRing.controls := ⟨start, resume⟩

def selections : Handler (KeyRing R) ApiClient.selections where
  start now _
    | .available fine, k =>
      let r := k.available now fine
      (.answer r.1, r.2)
  resume now _
    | .available fine, k =>
      let r := k.available now fine
      (.answer r.1, r.2)

end MarketFeed.Simulation.Keys
