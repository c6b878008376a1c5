/-!
What can go wrong while asking the data service, the message of each cause, and what is to be done
about it: ask again, go on with the next credential, or give up.
-/

set_option autoImplicit false
set_option relaxedAutoImplicit false

namespace MarketFeed

inductive FetchError where
  | transport (message : String) (timeout : Bool)
  | status (code : Nat) (body : String)
  | bodyRead (message : String)
  | invalidResponse (message : String)
  | retriesExhausted (attempts : Nat) (last : FetchError)
  | credentialsExhausted (tried : Nat) (last : FetchError)
  | noCredentials (message : String)
  | invalidTemplate (template message : String)
  | chunkFailed (index total ids : Nat) (cause : FetchError)
  | config (message : String)
  | cancelled
  deriving DecidableEq, Repr

namespace FetchError

/-- What a failure calls for. -/
inductive Class where
  | retry
  | nextCredential
  | never
  deriving DecidableEq, Repr

def retryableStatuses : List Nat := [429, 500, 502, 503, 504]

def isRetryableStatus (code : Nat) : Bool := retryableStatuses.contains code

def message : FetchError → String
  | .transport m _ => "Transport error: " ++ m
  | .status code body => "HTTP " ++ toString code ++ " from upstream: " ++ body
  | .bodyRead m => "Failed to read response body: " ++ m
  | .invalidResponse m => "Invalid upstream response: " ++ m
  | .retriesExhausted n last =>
    "Request failed after " ++ toString n ++ " attempt(s): " ++ last.message
  | .credentialsExhausted n last =>
    "All " ++ toString n ++ " credential(s) failed, last error: " ++ last.message
  | .noCredentials m => "No credentials available: " ++ m
  | .invalidTemplate t m => "Invalid endpoint template '" ++ t ++ "': " ++ m
  | .chunkFailed index total ids cause =>
    "Chunk " ++ toString index ++ "/" ++ toString total ++ " (" ++ toString ids ++
      " ids) failed: " ++ cause.message
  | .config m => "Invalid configuration: " ++ m
  | .cancelled => "Operation cancelled"

/-- What a failure calls for. A rotation or a chunk that failed for good stays so; otherwise the next
credential may do better. -/
def retryClass : FetchError → Class
  | .transport _ _ => .retry
  | .status code _ => if isRetryableStatus code then .retry else .nextCredential
  | .bodyRead _ | .invalidResponse _ | .retriesExhausted _ _ | .noCredentials _ => .nextCredential
  | .credentialsExhausted _ e | .chunkFailed _ _ _ e =>
    if e.retryClass = .never then .never else .nextCredential
  | .invalidTemplate _ _ | .config _ | .cancelled => .never

/-- Whether a failure is a cancellation, or has one within. -/
def isCancelled : FetchError → Bool
  | .cancelled => true
  | .retriesExhausted _ e | .credentialsExhausted _ e | .chunkFailed _ _ _ e => e.isCancelled
  | _ => false

def isRateLimited : FetchError → Bool
  | .status code _ => code == 429
  | .retriesExhausted _ e | .credentialsExhausted _ e | .chunkFailed _ _ _ e => e.isRateLimited
  | _ => false

end FetchError

end MarketFeed
