import MarketFeed.Json.Tree
/-!
Documents as values. A tree has a value when its texts spell characters and its numbers are in
range. An object keeps its members in the order written; the last of several members with one name
counts. An object may stand for the value that a text writes: it then holds this text alone, under a
name reserved for it.
-/

set_option autoImplicit false
set_option relaxedAutoImplicit false

namespace MarketFeed.Json

inductive Value where
  | null
  | bool (b : Bool)
  | number (n : Numeral)
  | string (s : String)
  | array (items : List Value)
  | object (members : List (String × Value))
  deriving Inhabited

namespace Tree

mutual

def depth : Tree → Nat
  | .array items => 1 + depthItems items
  | .object members => 1 + depthMembers members
  | _ => 0

def depthItems : List Tree → Nat
  | [] => 0
  | t :: rest => max t.depth (depthItems rest)

def depthMembers : List (List Piece × Tree) → Nat
  | [] => 0
  | (_, t) :: rest => max t.depth (depthMembers rest)

end

/-- The name of a member that embeds a document as a text. -/
def embeddingName : String := "$serde_json::private::RawValue"

def embeds : List (List Piece × Tree) → Bool
  | [] => false
  | (key, _) :: _ => decide (spell key = some embeddingName.toList)

/-- The text that some members embed: one member holds it, and there is no other. -/
def embedded? : List (List Piece × Tree) → Option (List Char)
  | [(_, .string s)] => spell s
  | _ => none

mutual

/-- The value of a document, if every text in it spells characters and every number is in range;
`embedded` gives the values of the texts embedded in it. -/
def value? (embedded : List Char → Option Value) : Tree → Option Value
  | .null => some .null
  | .bool b => some (.bool b)
  | .number n => if n.inRange then some (.number n) else none
  | .string s => (spell s).map fun cs => .string (String.ofList cs)
  | .array items => (valueItems? embedded items).map .array
  | .object members =>
    if embeds members then (embedded? members).bind embedded
    else (valueMembers? embedded members).map .object

def valueItems? (embedded : List Char → Option Value) : List Tree → Option (List Value)
  | [] => some []
  | t :: rest =>
    match t.value? embedded, valueItems? embedded rest with
    | some v, some vs => some (v :: vs)
    | _, _ => none

def valueMembers? (embedded : List Char → Option Value) :
    List (List Piece × Tree) → Option (List (String × Value))
  | [] => some []
  | (key, t) :: rest =>
    match spell key, t.value? embedded, valueMembers? embedded rest with
    | some name, some v, some vs => some ((String.ofList name, v) :: vs)
    | _, _, _ => none

end

end Tree

namespace Value

def ofNat (n : Nat) : Value := .number (.ofNat n)

/-- The last member of that name. -/
def member? (members : List (String × Value)) (name : String) : Option Value :=
  (members.reverse.find? fun m => m.1 == name).map Prod.snd

end Value

end MarketFeed.Json
