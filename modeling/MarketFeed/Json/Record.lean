import MarketFeed.Json.Value
/-!
Records in documents. A record is written as an object with a member for each field, or as the row of
its fields in order; members that are no fields are ignored, a row must not be longer than the
record. A field that is not written takes its default if it has one.
-/

set_option autoImplicit false
set_option relaxedAutoImplicit false

namespace MarketFeed.Json

/-- The fields of a record as written. -/
inductive Record where
  | members (ms : List (String × Value))
  | row (items : List Value)

namespace Record

/-- The record of a value, if it is one of at most `fields` fields. -/
def ofValue? (fields : Nat) : Value → Option Record
  | .object ms => some (.members ms)
  | .array items => if items.length ≤ fields then some (.row items) else none
  | _ => none

def ofObject? : Value → Option Record
  | .object ms => some (.members ms)
  | _ => none

/-- What is written for a field, given by its place and its name. -/
def field? (r : Record) (place : Nat) (name : String) : Option Value :=
  match r with
  | .members ms => Value.member? ms name
  | .row items => items[place]?

def required {α : Type} (r : Record) (place : Nat) (name : String) (read : Value → Option α) :
    Option α :=
  (r.field? place name).bind read

def optional {α : Type} (r : Record) (place : Nat) (name : String) (read : Value → Option α)
    (standard : α) : Option α :=
  match r.field? place name with
  | some v => read v
  | none => some standard

end Record

namespace Value

def text? : Value → Option String
  | .string s => some s
  | _ => none

def bool? : Value → Option Bool
  | .bool b => some b
  | _ => none

/-- A natural number, written with neither sign nor fraction nor exponent. -/
def nat? : Value → Option Nat
  | .number n => n.toNat?
  | _ => none

def uint64? (v : Value) : Option UInt64 :=
  v.nat?.bind fun n => if n < UInt64.size then some (UInt64.ofNat n) else none

def uint32? (v : Value) : Option UInt32 :=
  v.nat?.bind fun n => if n < UInt32.size then some (UInt32.ofNat n) else none

/-- A word: a text, or the name of the only member of an object if that member is nothing. -/
def word? : Value → Option String
  | .string s => some s
  | .object [(s, .null)] => some s
  | _ => none

def list? {α : Type} (read : Value → Option α) : Value → Option (List α)
  | .array items => items.mapM read
  | _ => none

def orNull? {α : Type} (read : Value → Option α) : Value → Option (Option α)
  | .null => some none
  | v => (read v).map some

end Value

end MarketFeed.Json
