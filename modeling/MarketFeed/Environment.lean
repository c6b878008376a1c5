import MarketFeed.Credential
import MarketFeed.Exchange
import MarketFeed.Json.Reader
import MarketFeed.Table
import MarketFeed.Text.Blank
import MarketFeed.Text.Search
/-!
Settings from environment variables: retry settings, where a variable that is missing or is no number
of its size counts as unset, and lists of keys.
-/

set_option autoImplicit false
set_option relaxedAutoImplicit false

namespace MarketFeed

structure Environment where
  settings : Table String

namespace Environment

/-- The number below `bound` that a text writes with decimal digits, a plus sign in front allowed. -/
def number? (bound : Nat) (s : List Char) : Option Nat :=
  let digits := match s with
    | '+' :: rest => rest
    | _ => s
  if digits.isEmpty || !digits.all Json.isDigit then none
  else
    let n := Json.Numeral.digitsValue digits
    if n < bound then some n else none

def numberOr (env : Environment) (bound : Nat) (name : String) (standard : Nat) : Nat :=
  match (env.settings.get? name).bind fun v => number? bound (Text.trim v.toList) with
  | some n => n
  | none => standard

def retry (env : Environment) : RetryConfig :=
  let standard : RetryConfig := {}
  { maxRetries := UInt32.ofNat
      (env.numberOr UInt32.size "PRICECACHE_MAX_RETRIES" standard.maxRetries.toNat)
    baseBackoffMs := UInt64.ofNat
      (env.numberOr UInt64.size "PRICECACHE_BASE_BACKOFF_MS" standard.baseBackoffMs.toNat)
    connectionTimeoutMs := UInt64.ofNat
      (env.numberOr UInt64.size "PRICECACHE_CONNECT_TIMEOUT_MS" standard.connectionTimeoutMs.toNat)
    requestTimeoutMs := UInt64.ofNat
      (env.numberOr UInt64.size "PRICECACHE_REQUEST_TIMEOUT_MS" standard.requestTimeoutMs.toNat) }

/-- The keys that a text lists with commas between them; blanks around keys and empty keys are left
out. -/
def keys (list : String) : List String :=
  (((Text.pieces ',' list.toList).map Text.trim).filter fun key => !key.isEmpty).map String.ofList

def keysOf (env : Environment) (name : String) : List String :=
  keys ((env.settings.get? name).getD "")

def credentials (env : Environment) : List Credential :=
  (env.keysOf "PRICECACHE_PAID_API_KEYS").map (fun s => ⟨s, .paid⟩) ++
    (env.keysOf "PRICECACHE_DEMO_API_KEYS").map (fun s => ⟨s, .demo⟩)

end Environment

end MarketFeed
