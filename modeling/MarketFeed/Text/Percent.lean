import MarketFeed.Text.Hex
import MarketFeed.Text.Utf8
/-!
Percent encoding. Letters and digits of ASCII and `-`, `_`, `.`, `~` stand for themselves; every
other byte of the text is written as a percent sign and two upper-case hexadecimal digits.
-/

set_option autoImplicit false
set_option relaxedAutoImplicit false

namespace MarketFeed.Text.Percent

/-- Characters that stand for themselves. -/
def isPlain (c : Char) : Bool :=
  ('a' ≤ c && c ≤ 'z') || ('A' ≤ c && c ≤ 'Z') || ('0' ≤ c && c ≤ '9') ||
    c == '-' || c == '_' || c == '.' || c == '~'

def escapeByte (b : UInt8) : List Char := ['%', Hex.upper (b.toNat / 16), Hex.upper (b.toNat % 16)]

def encodeChar (c : Char) : List Char :=
  if isPlain c then [c] else (String.utf8EncodeChar c).flatMap escapeByte

def encode (s : List Char) : List Char := s.flatMap encodeChar

/-- The bytes that a percent-encoded text spells; a percent sign without two digits stands for
itself. -/
def bytes : List Char → Bytes
  | '%' :: a :: b :: s =>
    match Hex.value? a, Hex.value? b with
    | some x, some y => UInt8.ofNat (x * 16 + y) :: bytes s
    | _, _ => Utf8.encode ['%'] ++ bytes (a :: b :: s)
  | c :: s => Utf8.encode [c] ++ bytes s
  | [] => []

def decode? (s : List Char) : Option (List Char) := Utf8.decode? (bytes s)

end MarketFeed.Text.Percent
