import MarketFeed.Text.Quoted
/-!
Credentials of the data service. Paid credentials come before demo ones, and the anonymous
credential, which stands for asking without a key, comes last. A secret is only ever shown masked.
-/

set_option autoImplicit false
set_option relaxedAutoImplicit false

namespace MarketFeed

inductive Credential.Kind where
  | paid
  | demo
  | anonymous
  deriving DecidableEq, Repr

/-- A secret and what it entitles to. -/
structure Credential where
  secret : String
  kind : Credential.Kind
  deriving DecidableEq, Repr

namespace Credential

namespace Kind

def all : List Kind := [.paid, .demo, .anonymous]

def rank : Kind → Nat
  | .paid => 0
  | .demo => 1
  | .anonymous => 2

def word : Kind → String
  | .paid => "paid"
  | .demo => "demo"
  | .anonymous => "anonymous"

def title : Kind → String
  | .paid => "Paid"
  | .demo => "Demo"
  | .anonymous => "Anonymous"

def ofWord? (w : String) : Option Kind := all.find? fun k => k.word == w

def sort (kinds : List Kind) : List Kind :=
  all.flatMap fun k => kinds.filter fun k' => k' == k

end Kind

structure PerKind (α : Type) where
  paid : α
  demo : α
  anonymous : α
  deriving DecidableEq, Repr

namespace PerKind

variable {α : Type}

def const (a : α) : PerKind α := ⟨a, a, a⟩

instance [Inhabited α] : Inhabited (PerKind α) := ⟨const default⟩

def get (p : PerKind α) : Kind → α
  | .paid => p.paid
  | .demo => p.demo
  | .anonymous => p.anonymous

def set (p : PerKind α) (k : Kind) (a : α) : PerKind α :=
  match k with
  | .paid => { p with paid := a }
  | .demo => { p with demo := a }
  | .anonymous => { p with anonymous := a }

theorem get_set (p : PerKind α) (k k' : Kind) (a : α) :
    (p.set k a).get k' = if k' = k then a else p.get k' := by
  cases k <;> cases k' <;> rfl

end PerKind

/-- The credential that stands for asking without a key. -/
def unkeyed : Credential := ⟨"", .anonymous⟩

def isAnonymous (c : Credential) : Bool := c.kind == .anonymous

/-- The kind, and of a secret of more than six characters the first two and the last two. -/
def masked (c : Credential) : String :=
  if c.isAnonymous then "anonymous"
  else
    let s := c.secret.toList
    if s.length ≤ 6 then c.kind.word ++ ":***"
    else
      c.kind.word ++ ":" ++ String.ofList (s.take 2) ++ "***" ++
        String.ofList (s.drop (s.length - 2))

def describe (c : Credential) : String :=
  "Credential \x7b secret: " ++ Text.quoted c.masked ++ ", kind: " ++ c.kind.title ++ " \x7d"

end Credential

end MarketFeed
