import MarketFeed.Client
import MarketFeed.Simulation.Scheduler
/-!
A client that answers by rules: how long a fetch takes, which fail, and what is left out of or added
to an answer. A payload names its identifier and the version of the rules.
-/

set_option autoImplicit false
set_option relaxedAutoImplicit false

namespace MarketFeed.Simulation

/-- The rules in force: latencies in milliseconds, the number of the fetch that fails and its
failure, failures by identifier, identifiers left out, identifiers added, and the version. -/
structure Rules where
  latency : Nat := 0
  latencyById : Table Nat := ∅
  failOnCall : Option Nat := none
  failWith : FetchError := .cancelled
  failIds : Table FetchError := ∅
  omitted : List String := []
  extra : List String := []
  version : String := "0"

namespace Rules

/-- How long a fetch takes: the longest latency that one of its identifiers has, or the common one
if none has its own. -/
def latencyFor (r : Rules) (ids : List String) : Nat :=
  match ids.filterMap r.latencyById.get? with
  | [] => r.latency
  | first :: rest => rest.foldl max first

def payload (r : Rules) (id : String) : Bytes :=
  Text.Utf8.encode (id ++ "@" ++ r.version).toList

def answer (r : Rules) (number : Nat) (ids : List String) : Except FetchError Payloads :=
  if r.failOnCall = some number then .error r.failWith
  else match ids.findSome? r.failIds.get? with
    | some e => .error e
    | none =>
      let given := (ids.filter fun id => !r.omitted.contains id) ++ r.extra
      .ok (Table.ofList (given.map fun id => (id, r.payload id)))

end Rules

structure ScriptedClient where
  rules : Rules
  calls : Nat
  log : List (Instant × List String)

namespace ScriptedClient

inductive Op where
  | open_ (ids : List String)
  | pause (d : Duration)

def Op.Answer : Op → Type
  | .open_ _ => Rules × Nat
  | .pause _ => Signal

def requests : Signature := ⟨Op, Op.Answer⟩

/-- A fetch by the rules in force when it is made. -/
def fetch : Client.Method requests := fun ids => do
  let opened ← Program.call (S := requests) (.open_ ids)
  let (rules, number) := (opened : Rules × Nat)
  let latency := rules.latencyFor ids
  if latency = 0 then return rules.answer number ids
  else
    let signal ← Program.call (S := requests) (.pause (Duration.ofMillis latency))
    match (signal : Signal) with
    | .cancelled => return .error .cancelled
    | .elapsed => return rules.answer number ids

def start (now : Instant) (cancelled : Bool) :
    (op : requests.Op) → ScriptedClient → Step (requests.Answer op) × ScriptedClient
  | .open_ ids, c =>
    let c := { c with calls := c.calls + 1, log := c.log ++ [(now, ids)] }
    (Step.answer (α := Rules × Nat) (c.rules, c.calls), c)
  | .pause d, c => (Step.pause now cancelled d, c)

def resume (now : Instant) (cancelled : Bool) :
    (op : requests.Op) → ScriptedClient → Step (requests.Answer op) × ScriptedClient
  | .pause _, c => (Step.resumed cancelled, c)
  | op, c => start now cancelled op c

def handler : Handler ScriptedClient requests := ⟨start, resume⟩

end ScriptedClient

end MarketFeed.Simulation
