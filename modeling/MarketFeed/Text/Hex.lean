/-!
Hexadecimal digits. Digits above nine are letters; both cases are read.
-/

set_option autoImplicit false
set_option relaxedAutoImplicit false

namespace MarketFeed.Text.Hex

def upper (n : Nat) : Char := if n < 10 then Char.ofNat (48 + n) else Char.ofNat (55 + n)

def lower (n : Nat) : Char := if n < 10 then Char.ofNat (48 + n) else Char.ofNat (87 + n)

def value? (c : Char) : Option Nat :=
  if '0' ≤ c && c ≤ '9' then some (c.toNat - 48)
  else if 'a' ≤ c && c ≤ 'f' then some (c.toNat - 87)
  else if 'A' ≤ c && c ≤ 'F' then some (c.toNat - 55)
  else none

def write (bytes : List UInt8) : List Char :=
  bytes.flatMap fun b => [lower (b.toNat / 16), lower (b.toNat % 16)]

def read? : List Char → Option (List UInt8)
  | [] => some []
  | [_] => none
  | a :: b :: rest =>
    match value? a, value? b, read? rest with
    | some x, some y, some bytes => some (UInt8.ofNat (x * 16 + y) :: bytes)
    | _, _, _ => none

end MarketFeed.Text.Hex
