import MarketFeed.Endpoint
import MarketFeed.FetchError
import MarketFeed.Text.Search
/-!
Accepted paths. A path is accepted when it holds exactly one kind of placeholder, which decides the
mode, and the mode is the expected one if one is expected.
-/

set_option autoImplicit false
set_option relaxedAutoImplicit false

namespace MarketFeed.Endpoint

/-- What is wrong with a path, or with a request made from it. -/
inductive TemplateFault where
  | bothPlaceholders
  | noPlaceholder
  | unexpectedMode (expected : Mode)
  | lacks (mode : Mode)
  | idCount (count : Nat)
  deriving DecidableEq, Repr

namespace TemplateFault

def message : TemplateFault → String
  | .bothPlaceholders =>
    "must contain exactly one of " ++ Mode.single.placeholder ++ " or " ++
      Mode.batch.placeholder ++ ", found both"
  | .noPlaceholder =>
    "must contain " ++ Mode.single.placeholder ++ " or " ++ Mode.batch.placeholder
  | .unexpectedMode expected => expected.title ++ " mode requires " ++ expected.placeholder
  | .lacks mode => "template lacks " ++ mode.placeholder
  | .idCount count => "single mode takes one id per request, got " ++ toString count

def toError (fault : TemplateFault) (raw : String) : FetchError :=
  .invalidTemplate raw fault.message

end TemplateFault

/-- A path and the mode that its placeholder decides. -/
structure Template where
  raw : String
  mode : Mode
  deriving DecidableEq, Repr

namespace Template

def holds (raw : String) (mode : Mode) : Bool :=
  Text.occurs mode.placeholder.toList raw.toList

/-- The mode that the placeholders of a path decide. -/
def modeOf (raw : String) : Except TemplateFault Mode :=
  match holds raw .single, holds raw .batch with
  | true, false => .ok .single
  | false, true => .ok .batch
  | true, true => .error .bothPlaceholders
  | false, false => .error .noPlaceholder

/-- Accepts a path, if need be only in the expected mode. -/
def check (raw : String) (expected : Option Mode) : Except TemplateFault Template :=
  match modeOf raw with
  | .error fault => .error fault
  | .ok mode =>
    match expected with
    | none => .ok ⟨raw, mode⟩
    | some wanted => if wanted = mode then .ok ⟨raw, mode⟩ else .error (.unexpectedMode wanted)

def parse (raw : String) (expected : Option Mode) : Except FetchError Template :=
  (check raw expected).mapError fun fault => fault.toError raw

end Template

end MarketFeed.Endpoint
