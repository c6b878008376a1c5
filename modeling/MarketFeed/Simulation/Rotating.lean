import MarketFeed.Simulation.Keys
/-!
Rotations whose uses go by a script: the use of a credential succeeds with its masked label unless
its secret has a failure, and may cancel the token first.
-/

set_option autoImplicit false
set_option relaxedAutoImplicit false

namespace MarketFeed.Simulation

structure ScriptedUse where
  failure : Option FetchError := none
  cancels : Bool := false

/-- What uses do, by secret, and the uses made so far. -/
structure ScriptedUses where
  outcomes : Table ScriptedUse
  seen : List (Instant × String)

namespace ScriptedUses

def start (now : Instant) :
    (op : (KeyRing.uses String).Op) → ScriptedUses →
      Step ((KeyRing.uses String).Answer op) × ScriptedUses
  | .call key, u =>
    let use := (u.outcomes.get? key.secret).getD {}
    let result : Except FetchError String := match use.failure with
      | some e => .error e
      | none => .ok key.masked
    let u := { u with seen := u.seen ++ [(now, key.secret)] }
    if use.cancels then (.cancelling result, u) else (.answer result, u)

def handler : Handler ScriptedUses (KeyRing.uses String) where
  start now _ := start now
  resume now _ := start now

end ScriptedUses

def rotating {R : Type} [Quantity R] :
    Machine (KeyRing R × ScriptedUses) (KeyRing.rotation String) (Except FetchError String) :=
  .ofHandler (Keys.controls.onFirst.sum ScriptedUses.handler.onSecond)

end MarketFeed.Simulation
