import MarketFeed.Exchange
import MarketFeed.Simulation.Scheduler
/-!
A network with a script: the n-th request that reaches the service gets the n-th reply, and further
requests find nothing. If the service cannot be reached, every request fails and no reply is used.
-/

set_option autoImplicit false
set_option relaxedAutoImplicit false

namespace MarketFeed.Simulation

/-- A reply: an answer, whole or cut off within its body, a connection that is closed, or silence. -/
inductive Reply where
  | answer (status : Nat) (body : Bytes) (cutOff : Bool)
  | dropped
  | stalled
  deriving DecidableEq, Repr

/-- The service, what was sent to it, the reply whose body is still to be read, and the listener:
whether reports are kept, those kept, and the report that cancels the token. -/
structure Network where
  reachable : Bool
  replies : List Reply
  requests : List String
  current : Option Reply
  listening : Bool
  events : List Exchange.Event
  cancelOn : Option Nat
  deriving DecidableEq, Repr

namespace Network

/-- What further requests find. -/
def nothing : Reply := .answer 404 [] false

def ofScript (reachable : Bool) (replies : List Reply) : Network :=
  ⟨reachable, replies, [], none, true, [], none⟩

def report (n : Network) (e : Exchange.Event) : Step Unit × Network :=
  if n.listening then
    let n := { n with events := n.events ++ [e] }
    if n.cancelOn = some n.events.length then (.cancelling (), n) else (.answer (), n)
  else (.answer (), n)

/-- What comes of a request that is on its way. -/
def answer (n : Network) (url : String) : Exchange.Sent × Network :=
  if n.reachable then
    let reply := n.replies.headD nothing
    let n := { n with
      replies := n.replies.tail, requests := n.requests ++ [url], current := some reply }
    match reply with
    | .answer status _ _ => (.answered status, n)
    | .dropped => (.failed "connection closed" false, n)
    | .stalled => (.failed "no answer in time" true, n)
  else (.failed "no connection" false, n)

def body (n : Network) : Exchange.Received :=
  match n.current with
  | some (.answer _ bytes false) => .body bytes
  | _ => .failed "body cut off"

def start (now : Instant) (cancelled : Bool) :
    (op : Exchange.network.Op) → Network → Step (Exchange.network.Answer op) × Network
  | .report e, n => n.report e
  | .draw _, n => (Step.answer (α := Nat) 0, n)
  | .pause d, n => (Step.pause now cancelled d, n)
  | .send _, n =>
    if cancelled then (Step.answer (α := Exchange.Sent) .cancelled, n)
    else (Step.wait (α := Exchange.Sent) now, n)
  | .receive, n =>
    (Step.answer (α := Exchange.Received) (if cancelled then .cancelled else n.body), n)

def resume (now : Instant) (cancelled : Bool) :
    (op : Exchange.network.Op) → Network → Step (Exchange.network.Answer op) × Network
  | .pause _, n => (Step.resumed cancelled, n)
  | .send url, n =>
    if cancelled then (Step.answer (α := Exchange.Sent) .cancelled, n)
    else
      let r := n.answer url
      (Step.answer (α := Exchange.Sent) r.1, r.2)
  | op, n => start now cancelled op n

def handler : Handler Network Exchange.network := ⟨start, resume⟩

end Network

end MarketFeed.Simulation
