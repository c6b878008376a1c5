import MarketFeed.FetchError
import MarketFeed.KeyRing
import MarketFeed.KeyRing.Journal
import MarketFeed.Program
import MarketFeed.Signal
/-!
Trying credentials one after the other until one succeeds. A failure that another credential may mend
benches the credential; a failure for good ends the rotation and blames nobody. Before each use a
token of the kind is taken, by waiting for it or by passing over the credential.
-/

set_option autoImplicit false
set_option relaxedAutoImplicit false

namespace MarketFeed

namespace KeyRing

/-- What a rotation asks of the key ring and of its caller's token. -/
inductive Control where
  | isCancelled
  | acquire (kind : Credential.Kind)
  | tryAcquire (kind : Credential.Kind)
  | markFailed (secret : String)
  | markSucceeded (secret : String)
  deriving DecidableEq, Repr

def Control.Answer : Control → Type
  | .isCancelled => Bool
  | .acquire _ => Signal
  | .tryAcquire _ => Bool
  | .markFailed _ => Unit
  | .markSucceeded _ => Unit

def controls : Signature := ⟨Control, Control.Answer⟩

inductive Use where
  | call (credential : Credential)
  deriving DecidableEq, Repr

def uses (α : Type) : Signature := ⟨Use, fun _ => Except FetchError α⟩

def rotation (α : Type) : Signature := controls.sum (uses α)

inductive Admission where
  | granted
  | skipped
  | cancelled
  deriving DecidableEq, Repr

def isCancelled {α : Type} : Program (rotation α) Bool :=
  Program.call (S := rotation α) (.inl .isCancelled)

def acquire {α : Type} (kind : Credential.Kind) : Program (rotation α) Signal :=
  Program.call (S := rotation α) (.inl (.acquire kind))

def tryAcquire {α : Type} (kind : Credential.Kind) : Program (rotation α) Bool :=
  Program.call (S := rotation α) (.inl (.tryAcquire kind))

def blame {α : Type} (secret : String) : Program (rotation α) Unit :=
  Program.call (S := rotation α) (.inl (.markFailed secret))

def clear {α : Type} (secret : String) : Program (rotation α) Unit :=
  Program.call (S := rotation α) (.inl (.markSucceeded secret))

def use {α : Type} (key : Credential) : Program (rotation α) (Except FetchError α) :=
  Program.call (S := rotation α) (.inr (.call key))

def grant {α : Type} (policy : RateLimit.Policy) (kind : Credential.Kind) :
    Program (rotation α) Admission :=
  match policy with
  | .wait => do
    match ← acquire kind with
    | .elapsed => return .granted
    | .cancelled => return .cancelled
  | .skip => do
    if ← tryAcquire kind then return .granted else return .skipped

def noneLeft : FetchError :=
  .noCredentials "all credentials are cooling down or none are configured"

/-- What a rotation ends with when no credential is left. -/
def exhausted (journal : Journal) : Option FetchError → FetchError
  | some last => .credentialsExhausted journal.tried last
  | none => .noCredentials ("every credential was skipped: " ++ journal.summary)

/-- Tries the credentials that are left; `last` is the last failure so far. -/
def rotateFrom {α : Type} (policy : RateLimit.Policy) :
    List Credential → Journal → Option FetchError → Program (rotation α) (Except FetchError α)
  | [], journal, last => return .error (exhausted journal last)
  | key :: keys, journal, last => do
    if ← isCancelled then return .error .cancelled
    match ← grant policy key.kind with
    | .cancelled => return .error .cancelled
    | .skipped => rotateFrom policy keys (journal.record (.skipped key.masked)) last
    | .granted =>
      match ← use key with
      | .ok value =>
        clear key.secret
        return .ok value
      | .error e =>
        if e.retryClass = .never then return .error e
        blame key.secret
        rotateFrom policy keys (journal.record (.failed key.masked e.message)) (some e)

def rotate {α : Type} (policy : RateLimit.Policy) (keys : List Credential) :
    Program (rotation α) (Except FetchError α) :=
  if keys.isEmpty then return .error noneLeft else rotateFrom policy keys .empty none

end KeyRing

end MarketFeed
