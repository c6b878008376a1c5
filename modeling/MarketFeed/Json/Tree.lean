import MarketFeed.Json.Numeral
/-!
Documents as they are written. A tree has the shape of a document; its texts are kept as the pieces
between the quotes and its numbers as numerals, so reading a tree needs the grammar only. A text
spells characters when each escaped surrogate has its partner.
-/

set_option autoImplicit false
set_option relaxedAutoImplicit false

namespace MarketFeed.Json

/-- A piece of a text between quotes: a character (as itself or by a short escape), or a code unit
written with four digits. -/
inductive Piece where
  | char (c : Char)
  | unit (code : Nat)
  deriving DecidableEq, Repr

/-- The characters that some pieces spell: two halves of a surrogate pair make one character, and a
half alone spells nothing. -/
def spell : List Piece → Option (List Char)
  | [] => some []
  | .char c :: rest => (spell rest).map (c :: ·)
  | .unit high :: .unit low :: rest =>
    if 0xD800 ≤ high && high ≤ 0xDBFF then
      if 0xDC00 ≤ low && low ≤ 0xDFFF then
        (spell rest).map (Char.ofNat (0x10000 + (high - 0xD800) * 0x400 + (low - 0xDC00)) :: ·)
      else none
    else if 0xDC00 ≤ high && high ≤ 0xDFFF then none
    else (spell (.unit low :: rest)).map (Char.ofNat high :: ·)
  | .unit code :: rest =>
    if 0xD800 ≤ code && code ≤ 0xDFFF then none
    else (spell rest).map (Char.ofNat code :: ·)

inductive Tree where
  | null
  | bool (b : Bool)
  | number (n : Numeral)
  | string (s : List Piece)
  | array (items : List Tree)
  | object (members : List (List Piece × Tree))

end MarketFeed.Json
