import Mathlib.Tactic.SplitIfs
import MarketFeed.FeedConfig
/-!
What it takes for a configuration to be accepted.
-/

set_option autoImplicit false
set_option relaxedAutoImplicit false

namespace MarketFeed.FeedConfig

/-- A configuration with a name, a path that names one kind of placeholder, limits and times that are
not zero, and a schedule without fault. -/
structure Accepted (c : FeedConfig) : Prop where
  named : Text.isAllBlank c.name = false
  located : ∃ l, Endpoint.Locator.ofEndpoint c.endpoint = .ok l
  chunked : c.chunk.chunkSize ≠ 0
  bounded : c.chunk.maxIdsLen ≠ 0
  lasting : c.ttlSecs ≠ 0
  connecting : c.retry.connectionTimeoutMs ≠ 0
  requesting : c.retry.requestTimeoutMs ≠ 0
  scheduled : c.scheduleFault? = none

theorem fault?_eq_none_iff {c : FeedConfig} : c.fault? = none ↔ c.Accepted := by
  constructor
  · intro faultless
    rw [fault?] at faultless
    cases located : Endpoint.Locator.ofEndpoint c.endpoint with
    | error e =>
      rw [located] at faultless
      split_ifs at faultless
    | ok l =>
      rw [located] at faultless
      split_ifs at faultless with name size length ttl connection request
      exact ⟨eq_false_of_ne_true name, ⟨l, located⟩, size, length, ttl, connection, request,
        faultless⟩
  · rintro ⟨named, ⟨l, located⟩, size, length, ttl, connection, request, scheduled⟩
    rw [fault?, if_neg (Bool.eq_false_iff.mp named), located]
    simp only [size, length, ttl, connection, request, if_false, scheduled]

theorem validate_eq_ok_iff {c : FeedConfig} : c.validate = .ok () ↔ c.Accepted := by
  rw [← fault?_eq_none_iff, validate]
  cases c.fault? <;> simp

def prices : FeedConfig :=
  { name := "prices", endpoint := { path := "/simple/price?ids=\x7b\x7bids_list\x7d\x7d" } }

theorem prices_accepted : prices.validate = .ok () := rfl

end MarketFeed.FeedConfig
