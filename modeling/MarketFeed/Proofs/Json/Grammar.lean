import MarketFeed.Json.Reader
/-!
The grammar of documents as relations between texts and what they write, apart from how they are
read. A row has commas between its elements and blanks around each of them; what an element is, is a
parameter, so rows of values, of members, and of values with their source texts are one notion.
-/

set_option autoImplicit false
set_option relaxedAutoImplicit false

namespace MarketFeed.Json

def Blank (s : List Char) : Prop := ∀ c ∈ s, c ∈ [' ', '\t', '\n', '\r']

def shortEscapes : List (Char × Char) :=
  [('"', '"'), ('\\', '\\'), ('/', '/'), ('b', Char.ofNat 8), ('f', Char.ofNat 12), ('n', '\n'),
    ('r', '\r'), ('t', '\t')]

/-- A piece between quotes: a character as itself, a short escape, or four digits. -/
inductive WritesPiece : List Char → Piece → Prop where
  | plain {c : Char} (quote : c ≠ '"') (escape : c ≠ '\\') (visible : 0x20 ≤ c.toNat) :
      WritesPiece [c] (.char c)
  | short {e c : Char} (listed : (e, c) ∈ shortEscapes) : WritesPiece ['\\', e] (.char c)
  | unit {a b c d : Char} {w x y z : Nat} (first : Text.Hex.value? a = some w)
      (second : Text.Hex.value? b = some x) (third : Text.Hex.value? c = some y)
      (fourth : Text.Hex.value? d = some z) :
      WritesPiece ['\\', 'u', a, b, c, d] (.unit (((w * 16 + x) * 16 + y) * 16 + z))

inductive WritesPieces : List Char → List Piece → Prop where
  | nil : WritesPieces [] []
  | cons {s r : List Char} {p : Piece} {ps : List Piece} (here : WritesPiece s p)
      (later : WritesPieces r ps) : WritesPieces (s ++ r) (p :: ps)

def Digits (ds : List Char) : Prop := ds ≠ [] ∧ ∀ c ∈ ds, '0' ≤ c ∧ c ≤ '9'

def Whole (ds : List Char) : Prop := ds = ['0'] ∨ Digits ds ∧ ds.head? ≠ some '0'

inductive WritesFraction : List Char → Option (List Char) → Prop where
  | none : WritesFraction [] none
  | some {ds : List Char} (digits : Digits ds) : WritesFraction ('.' :: ds) (some ds)

inductive WritesExponent : List Char → Option (Bool × List Char) → Prop where
  | none : WritesExponent [] none
  | plain {mark : Char} {ds : List Char} (marked : mark = 'e' ∨ mark = 'E') (digits : Digits ds) :
      WritesExponent (mark :: ds) (some (false, ds))
  | plus {mark : Char} {ds : List Char} (marked : mark = 'e' ∨ mark = 'E') (digits : Digits ds) :
      WritesExponent (mark :: '+' :: ds) (some (false, ds))
  | minus {mark : Char} {ds : List Char} (marked : mark = 'e' ∨ mark = 'E') (digits : Digits ds) :
      WritesExponent (mark :: '-' :: ds) (some (true, ds))

inductive WritesNumeral : List Char → Numeral → Prop where
  | mk {negative : Bool} {whole f x : List Char} {fraction : Option (List Char)}
      {exponent : Option (Bool × List Char)} (before : Whole whole)
      (behind : WritesFraction f fraction) (power : WritesExponent x exponent) :
      WritesNumeral ((if negative then ['-'] else []) ++ whole ++ f ++ x)
        ⟨negative, whole, fraction, exponent⟩

section Rows

variable {α : Type} (item : List Char → α → Prop)

inductive WritesRow : List Char → List α → Prop where
  | last {b s b' : List Char} {a : α} (before : Blank b) (here : item s a) (behind : Blank b') :
      WritesRow (b ++ s ++ b') [a]
  | cons {b s b' r : List Char} {a : α} {as : List α} (before : Blank b) (here : item s a)
      (behind : Blank b') (later : WritesRow r as) :
      WritesRow (b ++ s ++ b' ++ ',' :: r) (a :: as)

inductive WritesBracketed (opening closing : Char) : List Char → List α → Prop where
  | empty {b : List Char} (blank : Blank b) : WritesBracketed opening closing (opening :: b ++ [closing]) []
  | row {s : List Char} {as : List α} (row : WritesRow item s as) :
      WritesBracketed opening closing (opening :: s ++ [closing]) as

inductive WritesMember : List Char → List Piece × α → Prop where
  | mk {k b b' s : List Char} {key : List Piece} {a : α} (name : WritesPieces k key)
      (before : Blank b) (behind : Blank b') (value : item s a) :
      WritesMember ('"' :: k ++ '"' :: b ++ ':' :: b' ++ s) (key, a)

/-- A text writes a thing if it stands there with nothing but blanks around it. -/
def WritesAlone (s : List Char) (a : α) : Prop :=
  ∃ before source behind, s = before ++ source ++ behind ∧ Blank before ∧ item source a ∧
    Blank behind

end Rows

/-- A value, from its first character to its last. -/
inductive Writes : List Char → Tree → Prop where
  | null : Writes ['n', 'u', 'l', 'l'] .null
  | yes : Writes ['t', 'r', 'u', 'e'] (.bool true)
  | no : Writes ['f', 'a', 'l', 's', 'e'] (.bool false)
  | number {s : List Char} {n : Numeral} (numeral : WritesNumeral s n) : Writes s (.number n)
  | string {s : List Char} {ps : List Piece} (pieces : WritesPieces s ps) :
      Writes ('"' :: s ++ ['"']) (.string ps)
  | array {s : List Char} {items : List Tree} (list : WritesBracketed Writes '[' ']' s items) :
      Writes s (.array items)
  | object {s : List Char} {members : List (List Piece × Tree)}
      (list : WritesBracketed (WritesMember Writes) '\x7b' '\x7d' s members) :
      Writes s (.object members)

def WritesSource (s : List Char) (a : Tree × List Char) : Prop := Writes s a.1 ∧ a.2 = s

def WritesObject : List Char → List (List Piece × Tree × List Char) → Prop :=
  WritesBracketed (WritesMember WritesSource) '\x7b' '\x7d'

def WritesArray : List Char → List (Tree × List Char) → Prop :=
  WritesBracketed WritesSource '[' ']'

end MarketFeed.Json
