import MarketFeed.Json.Value
import MarketFeed.Text.Hex
/-!
Writing values as documents, without blanks. Quotes, backslashes and control characters are escaped;
every other character stands as itself.
-/

set_option autoImplicit false
set_option relaxedAutoImplicit false

namespace MarketFeed.Json

def writeChar (c : Char) : List Char :=
  if c == '"' then ['\\', '"']
  else if c == '\\' then ['\\', '\\']
  else if c.toNat < 0x20 then
    ['\\', 'u', '0', '0', Text.Hex.lower (c.toNat / 16), Text.Hex.lower (c.toNat % 16)]
  else [c]

def writeText (s : String) : List Char := '"' :: s.toList.flatMap writeChar ++ ['"']

/-- A number as it was written, its exponent with a small mark. -/
def writeNumeral (n : Numeral) : List Char :=
  let sign := if n.negative then ['-'] else []
  let fraction := match n.fraction with
    | none => []
    | some ds => '.' :: ds
  let exponent := match n.exponent with
    | none => []
    | some (true, ds) => 'e' :: '-' :: ds
    | some (false, ds) => 'e' :: ds
  sign ++ n.whole ++ fraction ++ exponent

namespace Value

mutual

/-- The document of a value in front of `rest`. -/
def writeBefore (rest : List Char) : Value → List Char
  | .null => 'n' :: 'u' :: 'l' :: 'l' :: rest
  | .bool true => 't' :: 'r' :: 'u' :: 'e' :: rest
  | .bool false => 'f' :: 'a' :: 'l' :: 's' :: 'e' :: rest
  | .number n => writeNumeral n ++ rest
  | .string s => writeText s ++ rest
  | .array items => '[' :: writeItems (']' :: rest) items
  | .object members => '\x7b' :: writeMembers ('\x7d' :: rest) members

def writeItems (rest : List Char) : List Value → List Char
  | [] => rest
  | [v] => v.writeBefore rest
  | v :: vs => v.writeBefore (',' :: writeItems rest vs)

def writeMembers (rest : List Char) : List (String × Value) → List Char
  | [] => rest
  | [(name, v)] => writeText name ++ ':' :: v.writeBefore rest
  | (name, v) :: vs => writeText name ++ ':' :: v.writeBefore (',' :: writeMembers rest vs)

end

def write (v : Value) : String := String.ofList (v.writeBefore [])

end Value

end MarketFeed.Json
