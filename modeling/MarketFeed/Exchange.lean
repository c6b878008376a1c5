import MarketFeed.Exchange.Backoff
import MarketFeed.FetchError
import MarketFeed.Program
import MarketFeed.Signal
import MarketFeed.Text.Utf8
/-!
One exchange with the data service: a request is sent, and sent again after a pause while its
failures are worth another attempt and attempts are left. Every attempt is reported.
-/

set_option autoImplicit false
set_option relaxedAutoImplicit false

namespace MarketFeed

/-- How often and how patiently a request is attempted; no attempts count as one. -/
structure RetryConfig where
  maxRetries : UInt32 := 3
  baseBackoffMs : UInt64 := 500
  connectionTimeoutMs : UInt64 := 10000
  requestTimeoutMs : UInt64 := 30000
  deriving DecidableEq, Repr

namespace RetryConfig

def attempts (c : RetryConfig) : Nat := max c.maxRetries.toNat 1

def baseBackoff (c : RetryConfig) : Duration := Duration.ofMillis c.baseBackoffMs.toNat

end RetryConfig

namespace Exchange

inductive Outcome where
  | success
  | rateLimited
  | error
  | retry
  deriving DecidableEq, Repr

/-- A report: the label of the request, what happened, the attempt counted from zero, and the status
of the answer if one came. -/
structure Event where
  label : String
  outcome : Outcome
  attempt : Nat
  status : Option Nat
  deriving DecidableEq, Repr

/-- What came of sending a request. -/
inductive Sent where
  | cancelled
  | failed (message : String) (timeout : Bool)
  | answered (status : Nat)
  deriving DecidableEq, Repr

inductive Received where
  | cancelled
  | failed (message : String)
  | body (bytes : Bytes)
  deriving DecidableEq, Repr

/-- What an exchange asks of its surroundings: to report, to draw a number up to a bound, to pause,
to send, and to read the body of the answer. -/
inductive Op where
  | report (event : Event)
  | draw (bound : Nat)
  | pause (d : Duration)
  | send (url : String)
  | receive
  deriving DecidableEq

def Op.Answer : Op → Type
  | .report _ => Unit
  | .draw _ => Nat
  | .pause _ => Signal
  | .send _ => Sent
  | .receive => Received

def network : Signature := ⟨Op, Op.Answer⟩

def report (event : Event) : Program network Unit := Program.call (S := network) (.report event)

def draw (bound : Nat) : Program network Nat := Program.call (S := network) (.draw bound)

def pause (d : Duration) : Program network Signal := Program.call (S := network) (.pause d)

def send (url : String) : Program network Sent := Program.call (S := network) (.send url)

def receive : Program network Received := Program.call (S := network) .receive

structure Response where
  body : Bytes
  attempts : Nat
  deriving DecidableEq, Repr

/-- How one attempt ended: with a response, with a failure that ends the exchange, or with one that
is worth another attempt. -/
inductive Attempted where
  | succeeded (r : Response)
  | ended (e : FetchError)
  | again (e : FetchError)

def isSuccess (status : Nat) : Bool := 200 ≤ status && status ≤ 299

def tooManyRequests : Nat := 429

def maxErrorBody : Nat := 256

def shorten (text : List Char) : String :=
  if maxErrorBody < text.length then String.ofList (text.take maxErrorBody) ++ "..."
  else String.ofList text

def errorText : Bytes → String := fun bytes => shorten (Text.Utf8.decodeLenient bytes)

def prepare (config : RetryConfig) (label : String) (attempt : Nat) : Program network Signal :=
  if attempt = 0 then return .elapsed
  else do
    report ⟨label, .retry, attempt, none⟩
    let drawn ← draw (Backoff.jitterBound config.baseBackoff attempt)
    pause (Backoff.delay config.baseBackoff attempt drawn)

def takeBody (label : String) (attempt status : Nat) : Program network Attempted := do
  match ← receive with
  | .cancelled => return .ended .cancelled
  | .body bytes =>
    report ⟨label, .success, attempt, some status⟩
    return .succeeded ⟨bytes, attempt + 1⟩
  | .failed message =>
    report ⟨label, .error, attempt, some status⟩
    return .ended (.bodyRead message)

def refuse (status : Nat) (body : Bytes) : Attempted :=
  let e := FetchError.status status (errorText body)
  if FetchError.isRetryableStatus status then .again e else .ended e

/-- Reads the body of a failure; one that cannot be read counts as empty. -/
def takeRefusal (label : String) (attempt status : Nat) : Program network Attempted := do
  let outcome := if status = tooManyRequests then Outcome.rateLimited else Outcome.error
  report ⟨label, outcome, attempt, some status⟩
  match ← receive with
  | .cancelled => return .ended .cancelled
  | .body bytes => return refuse status bytes
  | .failed _ => return refuse status []

def attemptOnce (label url : String) (attempt : Nat) : Program network Attempted := do
  match ← send url with
  | .cancelled => return .ended .cancelled
  | .failed message timeout =>
    report ⟨label, .error, attempt, none⟩
    return .again (.transport message timeout)
  | .answered status =>
    if isSuccess status then takeBody label attempt status else takeRefusal label attempt status

/-- What is told if no attempt was made. -/
def noAttempt : FetchError := .transport "no attempt was made" false

/-- The attempts that are left, of which the next is number `attempt`; `last` is the last failure so
far. -/
def attemptsFrom (config : RetryConfig) (label url : String) :
    Nat → Nat → Option FetchError → Program network (Except FetchError Response)
  | 0, attempt, last => return .error (.retriesExhausted attempt (last.getD noAttempt))
  | left + 1, attempt, _ => do
    match ← prepare config label attempt with
    | .cancelled => return .error .cancelled
    | .elapsed =>
      match ← attemptOnce label url attempt with
      | .succeeded r => return .ok r
      | .ended e => return .error e
      | .again e => attemptsFrom config label url left (attempt + 1) (some e)

/-- Asks for an address until an answer comes that is a success or not worth another attempt, or no
attempt is left. -/
def perform (config : RetryConfig) (label url : String) :
    Program network (Except FetchError Response) :=
  attemptsFrom config label url config.attempts 0 none

end Exchange

end MarketFeed
