import MarketFeed.Json.Tree
import MarketFeed.Text.Hex
/-!
Reading documents. Each reader takes a text and returns what it read with the rest of the text. Any
depth of nesting is read: the allowance that bounds the recursion is the length of the text, and
every level of nesting and every element takes at least one character.
-/

set_option autoImplicit false
set_option relaxedAutoImplicit false

namespace MarketFeed.Json

/-- A reader of one thing from the start of a text. -/
abbrev Reader (α : Type) := List Char → Option (α × List Char)

def isSpace (c : Char) : Bool := c == ' ' || c == '\t' || c == '\n' || c == '\r'

def skipSpace (s : List Char) : List Char := s.dropWhile isSpace

def isDigit (c : Char) : Bool := '0' ≤ c && c ≤ '9'

def hexUnit? (a b c d : Char) : Option Nat := do
  let a ← Text.Hex.value? a
  let b ← Text.Hex.value? b
  let c ← Text.Hex.value? c
  let d ← Text.Hex.value? d
  return ((a * 16 + b) * 16 + c) * 16 + d

def shortEscape? (c : Char) : Option Char :=
  if c == '"' || c == '\\' || c == '/' then some c
  else if c == 'b' then some (Char.ofNat 8)
  else if c == 'f' then some (Char.ofNat 12)
  else if c == 'n' then some '\n'
  else if c == 'r' then some '\r'
  else if c == 't' then some '\t'
  else none

/-- The pieces up to the closing quote. Control characters may not stand as themselves. -/
def readPieces (acc : List Piece) : Reader (List Piece)
  | [] => none
  | '\\' :: 'u' :: a :: b :: c :: d :: rest =>
    match hexUnit? a b c d with
    | some code => readPieces (.unit code :: acc) rest
    | none => none
  | '\\' :: e :: rest =>
    match shortEscape? e with
    | some c => readPieces (.char c :: acc) rest
    | none => none
  | c :: rest =>
    if c == '"' then some (acc.reverse, rest)
    else if c == '\\' || c.toNat < 0x20 then none
    else readPieces (.char c :: acc) rest

def readDigits : Reader (List Char) := fun s =>
  let ds := s.takeWhile isDigit
  if ds.isEmpty then none else some (ds, s.dropWhile isDigit)

/-- The digits before the point: a zero alone, or a row that begins with another digit. -/
def readWhole : Reader (List Char)
  | '0' :: rest => some (['0'], rest)
  | s => readDigits s

def readFraction : Reader (Option (List Char))
  | '.' :: rest => (readDigits rest).map fun r => (some r.1, r.2)
  | s => some (none, s)

def readExponent : Reader (Option (Bool × List Char))
  | c :: rest =>
    if c == 'e' || c == 'E' then
      match rest with
      | '-' :: rest => (readDigits rest).map fun r => (some (true, r.1), r.2)
      | '+' :: rest => (readDigits rest).map fun r => (some (false, r.1), r.2)
      | rest => (readDigits rest).map fun r => (some (false, r.1), r.2)
    else some (none, c :: rest)
  | [] => some (none, [])

def readUnsigned (negative : Bool) : Reader Numeral := fun s => do
  let (whole, s) ← readWhole s
  let (fraction, s) ← readFraction s
  let (exponent, s) ← readExponent s
  return (⟨negative, whole, fraction, exponent⟩, s)

def readNumeral : Reader Numeral
  | '-' :: rest => readUnsigned true rest
  | s => readUnsigned false s

def readWord {α : Type} (word : List Char) (a : α) : Reader α := fun s =>
  if word.isPrefixOf s then some (a, s.drop word.length) else none

/-- Elements with commas between them up to the closing bracket; `acc` holds those already read, the
latest first. -/
def readSequence {α : Type} (close : Char) (item : Reader α) : Nat → List α → Reader (List α)
  | 0, _, _ => none
  | allowance + 1, acc, s =>
    match item (skipSpace s) with
    | none => none
    | some (a, s) =>
      match skipSpace s with
      | [] => none
      | c :: rest =>
        if c == ',' then readSequence close item allowance (a :: acc) rest
        else if c == close then some ((a :: acc).reverse, rest)
        else none

def readBracketed {α : Type} (close : Char) (item : Reader α) : Reader (List α) := fun s =>
  match skipSpace s with
  | [] => none
  | c :: rest =>
    if c == close then some ([], rest)
    else readSequence close item (rest.length + 1) [] (c :: rest)

def readMember {α : Type} (item : Reader α) : Reader (List Piece × α)
  | '"' :: s =>
    match readPieces [] s with
    | none => none
    | some (key, s) =>
      match skipSpace s with
      | ':' :: s => (item (skipSpace s)).map fun r => ((key, r.1), r.2)
      | _ => none
  | _ => none

/-- A value nested at most `allowance` levels deep, from its first character on. -/
def readTree : Nat → Reader Tree
  | 0, _ => none
  | _ + 1, [] => none
  | allowance + 1, c :: s =>
    if c == '"' then (readPieces [] s).map fun r => (.string r.1, r.2)
    else if c == '[' then
      (readBracketed ']' (readTree allowance) s).map fun r => (.array r.1, r.2)
    else if c == '\x7b' then
      (readBracketed '\x7d' (readMember (readTree allowance)) s).map fun r => (.object r.1, r.2)
    else if c == 'n' then readWord ['u', 'l', 'l'] .null s
    else if c == 't' then readWord ['r', 'u', 'e'] (.bool true) s
    else if c == 'f' then readWord ['a', 'l', 's', 'e'] (.bool false) s
    else (readNumeral (c :: s)).map fun r => (.number r.1, r.2)

def readValue : Reader Tree := fun s => readTree (s.length + 1) s

/-- A value together with the text it was read from. -/
def readSource : Reader (Tree × List Char) := fun s =>
  (readValue s).map fun r => ((r.1, s.take (s.length - r.2.length)), r.2)

/-- What a reader makes of a whole text with nothing but blanks around it. -/
def readAll {α : Type} (item : Reader α) (s : List Char) : Option α :=
  match item (skipSpace s) with
  | some (a, rest) => if (skipSpace rest).isEmpty then some a else none
  | none => none

def document (s : List Char) : Option Tree := readAll readValue s

def sourceMembers (s : List Char) : Option (List (List Piece × Tree × List Char)) :=
  readAll (fun s => match s with
    | c :: s => if c == '\x7b' then readBracketed '\x7d' (readMember readSource) s else none
    | [] => none) s

def sourceItems (s : List Char) : Option (List (Tree × List Char)) :=
  readAll (fun s => match s with
    | c :: s => if c == '[' then readBracketed ']' readSource s else none
    | [] => none) s

end MarketFeed.Json
