import MarketFeed.Feed
import MarketFeed.Proofs.ApiClient.Failures
import MarketFeed.Proofs.Endpoint.Addresses
import MarketFeed.Proofs.FeedConfig.Acceptance
import MarketFeed.Proofs.Refresh.Asking
/-!
What an accepted configuration can rely on. Its client has an address for every chunk and for every
single identifier, each of its tiers has a slice of every ranked list, and so no refresh and no read
comes to a point where it can only break down or ask for something that has no address.
-/

set_option autoImplicit false
set_option relaxedAutoImplicit false

namespace MarketFeed

open Program

/-- Identifiers with an address, whatever credential is used. -/
def Endpoint.Locator.Locates (l : Endpoint.Locator) (ids : List String) : Prop :=
  ∀ credential, ∃ url, l.url ids credential = .ok url

/-- A request to a client and to other surroundings that can be answered: the identifiers of a chunk
have an address, and what else is asked is `safe`. -/
def Client.Answerable (l : Endpoint.Locator) {F : Signature} (safe : F.Op → Prop) :
    (F.sum Client.fetches).Op → Prop
  | .inl op => safe op
  | .inr (.chunk ids) => l.Locates ids

open Client (Answerable)

variable {l : Endpoint.Locator}

/-! ### Refreshes -/

namespace Refresh

variable {plan : Plan} {t : Tier}

def Answerable (l : Endpoint.Locator) : requests.Op → Prop :=
  Client.Answerable l (F := steps) (· ≠ .breakDown)

/-- A refresh of a tier with a proper range can be answered at every point, since the chunks that it asks
for fit the mode of its client. -/
theorem asks_run (same : plan.mode = l.mode) (range : t.IsRange) (started : Instant) :
    (run plan t started).Asks (Answerable l) := by
  have permits : Permits plan t (Answerable l) := {
    step := fun _ safe _ => safe
    second := fun _ => nofun
    chunk := fun _ _ member => Endpoint.Locator.url_of_fits fun single =>
      ChunkPlan.length_of_mem_plan member (same.trans single) }
  exact permits.asks_run range started

end Refresh

/-! ### Reads -/

namespace Feed

private theorem asks_loadOne (op : Cache.loads.Op) :
    (loadOne op).Asks fun op : Client.Fetch => ∃ id, op = .chunk [id] := by
  obtain ⟨id⟩ := op
  refine (asks_call (S := Client.fetches) (.chunk [id]) ⟨id, rfl⟩).bind fun r => ?_
  cases r with
  | error e => exact asks_pure _
  | ok data =>
    dsimp only
    split <;> exact asks_pure _

theorem asks_get (l : Endpoint.Locator) (readThrough : Bool) (id : String) :
    (get readThrough id).Asks (Answerable l fun _ => True) := by
  refine (asks_any _).interpret fun op _ => ?_
  match op with
  | .inl op => exact asks_call (S := readings) (.inl op) trivial
  | .inr op =>
    refine (asks_loadOne op).inSecond ?_
    rintro _ ⟨id, rfl⟩ credential
    exact ⟨_, l.url_singleton id credential⟩

/-! ### Accepted configurations -/

/-- What a feed can rely on with its client: chunks and single identifiers have addresses, tiers have
slices, and the only tier of a feed without tiers has the whole of every list that can be counted. So
whatever is answered, refreshes and reads only ask for what can be answered, and no fetch that they ask
for fails for the path. -/
structure Dependable (c : FeedConfig) (client : ApiClient) : Prop where
  chunks : ∀ ids, ∀ chunk ∈ ChunkPlan.plan ids client.mode c.chunk, client.locator.Locates chunk
  one : ∀ id, client.locator.Locates [id]
  slices : ∀ t ∈ c.tierList, ∀ ranked, t.slice? ranked = some (t.idsOf ranked)
  whole : c.isTiered = false → ∃ t, tiersOf c = [t] ∧
    ∀ ranked : List String, ranked.length < UInt64.size → t.slice? ranked = some ranked
  refreshes : ∀ t ∈ tiersOf c, ∀ started,
    (Refresh.run (planOf c client.mode) t started).Asks (Refresh.Answerable client.locator)
  reads : ∀ readThrough id, (get readThrough id).Asks (Answerable client.locator fun _ => True)
  fetches : ∀ ids, client.locator.Locates ids → ∀ h r, Runs (client.fetch ids) h r →
    FetchError.Clears r

theorem isRange_wholeTier (interval : Duration) : (Schedule.wholeTier interval).IsRange := by
  refine ⟨Nat.one_pos, ?_⟩
  show 1 ≤ UInt64.size - 1
  decide

theorem slice?_wholeTier (interval : Duration) {ranked : List String}
    (countable : ranked.length < UInt64.size) :
    (Schedule.wholeTier interval).slice? ranked = some ranked := by
  rw [Tier.slice?_eq (isRange_wholeTier interval), Tier.idsOf]
  exact congrArg some (List.take_of_length_le (Nat.le_sub_one_of_lt countable))

theorem isRange_of_accepted {c : FeedConfig} (scheduled : c.scheduleFault? = none) :
    ∀ t ∈ tiersOf c, t.IsRange := by
  intro t member
  rw [tiersOf] at member
  by_cases tiered : c.isTiered = true
  · rw [if_pos tiered] at member
    rw [FeedConfig.scheduleFault?, if_pos tiered, Option.map_eq_none_iff] at scheduled
    exact Tier.isRange_of_validate scheduled t member
  · rw [if_neg tiered] at member
    rw [List.mem_singleton.mp member]
    exact isRange_wholeTier c.updateInterval

/-- Every accepted configuration has a client, and its feed can rely on it. -/
theorem accepted_dependable {c : FeedConfig} (accepted : c.validate = .ok ()) :
    ∃ client, clientOf c = .ok client ∧ Dependable c client := by
  have accepted := FeedConfig.validate_eq_ok_iff.mp accepted
  obtain ⟨l, located⟩ := accepted.located
  have ranges := isRange_of_accepted accepted.scheduled
  have tiered : ∀ t ∈ c.tierList, t ∈ tiersOf c := by
    intro t member
    have some_tier : c.isTiered = true := by
      rw [FeedConfig.isTiered, Bool.not_eq_true', ← Bool.not_eq_true, List.isEmpty_iff]
      intro none
      rw [FeedConfig.tierList, none] at member
      cases member
    rwa [tiersOf, if_pos some_tier]
  refine ⟨⟨c.name, l, c.keys.policy, c.retry⟩, by rw [clientOf, located]; rfl, ?_⟩
  exact {
    chunks := fun ids chunk member =>
      Endpoint.Locator.url_of_fits fun single => ChunkPlan.length_of_mem_plan member single
    one := fun id credential => ⟨_, l.url_singleton id credential⟩
    slices := fun t member => Tier.slice?_eq (ranges t (tiered t member))
    whole := fun untiered => ⟨Schedule.wholeTier c.updateInterval,
      by rw [tiersOf, untiered]; rfl, fun _ => slice?_wholeTier c.updateInterval⟩
    refreshes := fun t member started => Refresh.asks_run rfl (ranges t member) started
    reads := fun readThrough id => asks_get l readThrough id
    fetches := fun ids located h r runs =>
      (ApiClient.clears_fetch (h := []) fun key => located (some key)).runs runs }

theorem accepted_dependable_prices :
    FeedConfig.prices.validate = .ok () ∧
      ∃ client, clientOf FeedConfig.prices = .ok client ∧ Dependable FeedConfig.prices client :=
  ⟨FeedConfig.prices_accepted, accepted_dependable FeedConfig.prices_accepted⟩

end Feed

end MarketFeed
