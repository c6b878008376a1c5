import MarketFeed.Endpoint
import MarketFeed.FetchError
import MarketFeed.Json.Meaning
import MarketFeed.Text.Blank
import MarketFeed.Text.Utf8
/-!
Payloads, one for each identifier, cut out of the body of an answer. In single mode the body is the
payload of the identifier asked for. In batch mode the body is an object with a member for each
identifier, or an array of objects that name theirs; a payload is the source text of the value. Only
identifiers asked for are kept.
-/

set_option autoImplicit false
set_option relaxedAutoImplicit false

namespace MarketFeed

/-- What was fetched, by identifier. -/
abbrev Payloads := Table Bytes

namespace Payloads

/-- Why a body cannot be cut. -/
inductive SplitFault where
  | notText
  | notObject
  | notArray
  | neither
  deriving DecidableEq, Repr

def SplitFault.message : SplitFault → String
  | .notText => "body is not UTF-8"
  | .notObject => "expected a JSON object"
  | .notArray => "expected a JSON array"
  | .neither => "expected a JSON object or array"

def idField : String := "id"

/-- The identifier that an element names: it is an object whose members can be read as values, and
the last member of that name is a text. -/
def elementId? (t : Json.Tree) : Option String :=
  match t.members? with
  | some members =>
    match Json.Value.member? members idField with
    | some (.string id) => some id
    | _ => none
  | none => none

def ofMembers : List (List Json.Piece × Json.Tree × List Char) → Option (List (String × Bytes))
  | [] => some []
  | (key, _, source) :: rest =>
    match Json.spell key, ofMembers rest with
    | some name, some pairs => some ((String.ofList name, Text.Utf8.encode source) :: pairs)
    | _, _ => none

def ofItems (items : List (Json.Tree × List Char)) : List (String × Bytes) :=
  items.filterMap fun item => (elementId? item.1).map fun id => (id, Text.Utf8.encode item.2)

def batchPairs (body : Bytes) : Except SplitFault (List (String × Bytes)) :=
  match Text.Utf8.decode? body with
  | none => .error .notText
  | some text =>
    match Text.trimStart text with
    | '\x7b' :: _ =>
      match (Json.sourceMembers text).bind ofMembers with
      | some pairs => .ok pairs
      | none => .error .notObject
    | '[' :: _ =>
      match Json.sourceItems text with
      | some items => .ok (ofItems items)
      | none => .error .notArray
    | _ => .error .neither

/-- Cuts a body into the payloads of the identifiers asked for. -/
def split (mode : Endpoint.Mode) (ids : List String) (body : Bytes) :
    Except FetchError Payloads :=
  match mode with
  | .single =>
    match ids with
    | [] => .ok ∅
    | id :: _ => .ok (Table.empty.insert id body)
  | .batch =>
    match batchPairs body with
    | .error fault => .error (.invalidResponse fault.message)
    | .ok pairs => .ok ((Table.ofList pairs).filter fun id _ => ids.contains id)

end Payloads

end MarketFeed
