/-!
Numbers as a document writes them. A numeral keeps its digits, so no size is lost. A numeral is in
range when it can be read as a double: at most the leading digits that fit 64 bits are kept, and
their value times the remaining power of ten, both rounded to doubles, must not round to infinity.
-/

set_option autoImplicit false
set_option relaxedAutoImplicit false

namespace MarketFeed.Json

/-- The parts of a number as written. -/
structure Numeral where
  negative : Bool
  whole : List Char
  fraction : Option (List Char)
  exponent : Option (Bool × List Char)
  deriving DecidableEq, Repr

namespace Numeral

def digit (c : Char) : Nat := c.toNat - 48

def digitsValue (ds : List Char) : Nat := ds.foldl (fun n c => n * 10 + digit c) 0

def ofNat (n : Nat) : Numeral := ⟨false, Nat.toDigits 10 n, none, none⟩

def toNat? (n : Numeral) : Option Nat :=
  if !n.negative && n.fraction.isNone && n.exponent.isNone then some (digitsValue n.whole)
  else none

/-- The digits kept so far: their value, the power of ten they stand at, and whether a digit has been
left out. -/
structure Leading where
  value : Nat
  power : Int
  full : Bool

/-- A digit before the point: kept while the value fits 64 bits, counted otherwise. -/
def Leading.whole (l : Leading) (c : Char) : Leading :=
  let next := l.value * 10 + digit c
  if !l.full && next < UInt64.size then { l with value := next }
  else { l with power := l.power + 1, full := true }

def Leading.fraction (l : Leading) (c : Char) : Leading :=
  let next := l.value * 10 + digit c
  if !l.full && next < UInt64.size then { l with value := next, power := l.power - 1 }
  else { l with full := true }

def leading (n : Numeral) : Leading :=
  let whole := n.whole.foldl Leading.whole ⟨0, 0, false⟩
  let all := (n.fraction.getD []).foldl Leading.fraction { whole with full := false }
  match n.exponent with
  | none => all
  | some (true, ds) => { all with power := all.power - digitsValue ds }
  | some (false, ds) => { all with power := all.power + digitsValue ds }

/-- A natural number rounded to 53 significant bits, a tie to the even neighbour. -/
def roundTo53 (n : Nat) : Nat :=
  if n < Nat.pow 2 53 then n
  else
    let shift := n.log2 - 52
    let kept := n >>> shift
    let rest := n - kept <<< shift
    let half := Nat.pow 2 (shift - 1)
    let rounded := if half < rest || (rest == half && kept % 2 == 1) then kept + 1 else kept
    rounded <<< shift

/-- The least value that rounds to infinity. -/
def infinityBound : Nat := Nat.pow 2 1024 - Nat.pow 2 970

/-- Whether a numeral can be read as a finite double. -/
def inRange (n : Numeral) : Bool :=
  let l := n.leading
  if l.power < 0 || l.value == 0 then true
  else if l.power > 308 then false
  else roundTo53 l.value * roundTo53 (Nat.pow 10 l.power.toNat) < infinityBound

end Numeral

end MarketFeed.Json
