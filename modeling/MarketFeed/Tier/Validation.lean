import MarketFeed.Text.Blank
import MarketFeed.Tier
/-!
Which lists of tiers are accepted: every tier has a name of its own, a range that is not empty and an
interval, and no two ranges share a rank.
-/

set_option autoImplicit false
set_option relaxedAutoImplicit false

namespace MarketFeed.Tier

inductive Fault where
  | blankName
  | duplicateName (name : String)
  | zeroFrom (name : String)
  | reversed (name : String) (idFrom idTo : Nat)
  | zeroInterval (name : String)
  | overlap (first second : Tier)
  deriving DecidableEq

namespace Fault

def label (t : Tier) : String := "'" ++ t.name ++ "' (" ++ t.rangeLabel ++ ")"

def message : Fault → String
  | .blankName => "tier name must not be empty"
  | .duplicateName name => "duplicate tier name '" ++ name ++ "'"
  | .zeroFrom name => "tier '" ++ name ++ "': id_from must be at least 1"
  | .reversed name idFrom idTo =>
    "tier '" ++ name ++ "': id_to (" ++ toString idTo ++ ") is before id_from (" ++
      toString idFrom ++ ")"
  | .zeroInterval name => "tier '" ++ name ++ "': update interval must be positive"
  | .overlap first second => "tiers " ++ label first ++ " and " ++ label second ++ " overlap"

end Fault

/-- What is wrong with one tier, given the names before it. -/
def fault? (t : Tier) (names : List String) : Option Fault :=
  if Text.isAllBlank t.name then some .blankName
  else if names.contains t.name then some (.duplicateName t.name)
  else if t.idFrom = 0 then some (.zeroFrom t.name)
  else if t.idTo < t.idFrom then some (.reversed t.name t.idFrom t.idTo)
  else if t.interval.isZero then some (.zeroInterval t.name)
  else none

/-- The first fault of a tier that does not concern its neighbours. -/
def firstFault? (names : List String) : List Tier → Option Fault
  | [] => none
  | t :: rest =>
    match t.fault? names with
    | some f => some f
    | none => firstFault? (t.name :: names) rest

/-- The first two neighbours that share a rank. -/
def overlap? : List Tier → Option Fault
  | first :: second :: rest =>
    if second.idFrom ≤ first.idTo then some (.overlap first second)
    else overlap? (second :: rest)
  | _ => none

def sorted (tiers : List Tier) : List Tier :=
  tiers.mergeSort fun a b => decide (a.idFrom ≤ b.idFrom)

/-- The fault of a list of tiers, if it has one. -/
def validate (tiers : List Tier) : Option Fault :=
  match firstFault? [] tiers with
  | some f => some f
  | none => overlap? (sorted tiers)

end MarketFeed.Tier
