/-!
What happened to each credential of one rotation, told in one line.
-/

set_option autoImplicit false
set_option relaxedAutoImplicit false

namespace MarketFeed.KeyRing

/-- What happened to one credential, named by its masked label. -/
inductive Journal.Entry where
  | skipped (label : String)
  | failed (label message : String)
  | succeeded (label : String)
  deriving DecidableEq, Repr

namespace Journal.Entry

def text : Entry → String
  | .skipped label => label ++ ": skipped (rate limited)"
  | .failed label message => label ++ " failed (" ++ message ++ ")"
  | .succeeded label => label ++ " succeeded"

def isUse : Entry → Bool
  | .skipped _ => false
  | _ => true

end Journal.Entry

/-- The entries of one rotation, the first credential first. -/
structure Journal where
  entries : List Journal.Entry
  deriving DecidableEq, Repr

namespace Journal

def empty : Journal := ⟨[]⟩

def record (j : Journal) (e : Entry) : Journal := ⟨j.entries ++ [e]⟩

def tried (j : Journal) : Nat := (j.entries.filter Entry.isUse).length

def summary (j : Journal) : String := " -> ".intercalate (j.entries.map Entry.text)

end Journal

end MarketFeed.KeyRing
