/-!
Texts as bytes. `scan` reads bytes from the left: each character it finds stands as itself, and each
broken stretch (a longest start of a character that does not go on, or a byte that starts none)
stands as one `none`. Strict reading refuses broken bytes, lenient reading puts the replacement
character for each broken stretch.
-/

set_option autoImplicit false
set_option relaxedAutoImplicit false

namespace MarketFeed

abbrev Bytes := List UInt8

namespace Text.Utf8

def encode (s : List Char) : Bytes := s.flatMap String.utf8EncodeChar

/-- A character that has begun: what is known of its number, the bytes still owed, and the bounds of
the next byte. -/
structure Begun where
  value : Nat
  owed : Nat
  low : Nat
  high : Nat

inductive First where
  | whole (c : Char)
  | begun (b : Begun)
  | broken

/-- The start of a character: the second byte is bounded so that no character has two spellings and
no surrogate has one. -/
def first (byte : UInt8) : First :=
  let n := byte.toNat
  if n < 0x80 then .whole (Char.ofNat n)
  else if 0xC2 ≤ n && n ≤ 0xDF then .begun ⟨n - 0xC0, 1, 0x80, 0xBF⟩
  else if n == 0xE0 then .begun ⟨0, 2, 0xA0, 0xBF⟩
  else if n == 0xED then .begun ⟨13, 2, 0x80, 0x9F⟩
  else if 0xE1 ≤ n && n ≤ 0xEF then .begun ⟨n - 0xE0, 2, 0x80, 0xBF⟩
  else if n == 0xF0 then .begun ⟨0, 3, 0x90, 0xBF⟩
  else if 0xF1 ≤ n && n ≤ 0xF3 then .begun ⟨n - 0xF0, 3, 0x80, 0xBF⟩
  else if n == 0xF4 then .begun ⟨4, 3, 0x80, 0x8F⟩
  else .broken

/-- Reads on between characters or within one. A byte that does not fit ends a broken stretch and is
read as the start of a character. -/
def scanFrom : Option Begun → Bytes → List (Option Char)
  | none, [] => []
  | some _, [] => [none]
  | state, byte :: rest =>
    let begin_ (broken : List (Option Char)) : List (Option Char) :=
      match first byte with
      | .whole c => broken ++ some c :: scanFrom none rest
      | .begun b => broken ++ scanFrom (some b) rest
      | .broken => broken ++ none :: scanFrom none rest
    match state with
    | none => begin_ []
    | some b =>
      let n := byte.toNat
      if b.low ≤ n && n ≤ b.high then
        let value := b.value * 64 + (n - 0x80)
        if b.owed ≤ 1 then some (Char.ofNat value) :: scanFrom none rest
        else scanFrom (some ⟨value, b.owed - 1, 0x80, 0xBF⟩) rest
      else begin_ [none]

def scan (bytes : Bytes) : List (Option Char) := scanFrom none bytes

def decode? (bytes : Bytes) : Option (List Char) := (scan bytes).mapM id

/-- The text that the bytes spell, with U+FFFD for each broken stretch. -/
def decodeLenient (bytes : Bytes) : List Char :=
  (scan bytes).map fun c => c.getD (Char.ofNat 0xFFFD)

end Text.Utf8

end MarketFeed
