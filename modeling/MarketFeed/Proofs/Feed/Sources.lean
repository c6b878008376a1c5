import MarketFeed.Proofs.ApiClient.Provenance
import MarketFeed.Proofs.Feed.Reading
import MarketFeed.Proofs.Refresh.Publication
import MarketFeed.Simulation.RunningFeed
/-!
What the jobs of a feed put into its store. Refreshes and reads write nothing but payloads that the
data service assigned to their identifiers, in answers that the same job has heard before.
-/

set_option autoImplicit false
set_option relaxedAutoImplicit false

namespace MarketFeed.Feed

open Program Simulation

abbrev jobs : Signature := feedRequests ApiClient.requests

def overNetwork (e : Exchanged Exchange.network) : Exchanged jobs :=
  (ApiClient.overNetwork e).inSecond

/-- A payload that the data service assigned to an identifier: in the body of an answer of success to
a request whose list contained the identifier. -/
def Given (c : ApiClient) (h : List (Exchanged jobs)) (id : String) (v : Bytes) : Prop :=
  ∃ ids chunk, id ∈ ids ∧ c.CutFrom overNetwork h ids chunk ∧ chunk.get? id = some v

theorem Given.extend {c : ApiClient} {h k : List (Exchanged jobs)} {id : String} {v : Bytes}
    (given : Given c h id v) (kept : h <+: k) : Given c k id v := by
  obtain ⟨ids, chunk, asked, ⟨key, url, body, located, heard, cut⟩, payload⟩ := given
  exact ⟨ids, chunk, asked, ⟨key, url, body, located, heard.extend kept, cut⟩, payload⟩

/-- The payloads that a request would put into the store. -/
def written? : jobs.Op → Option Payloads
  | .inl (.inl (.store chunk)) => some chunk
  | .inl (.inr (.write data)) => some data
  | _ => none

/-- When a job may make a request: it writes only what the data service gave it. -/
def Honest (c : ApiClient) (h : List (Exchanged jobs)) (op : jobs.Op) : Prop :=
  ∀ data, written? op = some data → ∀ id v, data.get? id = some v → Given c h id v

def Sourced (c : ApiClient) {F : Signature} (h : List (Exchanged (F.sum Client.fetches)))
    (k : List (Exchanged jobs)) : Prop :=
  ∀ ids chunk, (⟨.inr (.chunk ids), .ok chunk⟩ : Exchanged (F.sum Client.fetches)) ∈ h →
    ∀ id v, chunk.get? id = some v → Given c k id v

namespace Sourced

variable {c : ApiClient} {F : Signature} {h : List (Exchanged (F.sum Client.fetches))}
  {k : List (Exchanged jobs)}

theorem nothing : Sourced c (F := F) [] [] := fun _ _ member => nomatch member

theorem step (sourced : Sourced c h k) (op : F.Op) (r : F.Answer op) (e : Exchanged jobs) :
    Sourced c (h ++ [⟨.inl op, r⟩]) (k ++ [e]) := by
  intro ids chunk member id v payload
  rcases List.mem_append.mp member with old | new
  · exact (sourced ids chunk old id v payload).extend (List.prefix_append _ _)
  · cases List.mem_singleton.mp new

theorem fetch (sourced : Sourced c h k) (ids : List String) :
    Obeys (Honest c)
      (fun k' r => Sourced c (h ++ [(⟨.inr (.chunk ids), r⟩ : Exchanged (F.sum Client.fetches))]) k')
      k ((c.fetch ids).inSecond (S := Refresh.steps.sum Cache.accesses)) := by
  refine (c.obeys_fetch (h := []) ids).inSecond (fun _ _ _ => nofun) fun more r fetched => ?_
  intro ids' chunk member id v payload
  rcases List.mem_append.mp member with old | new
  · exact (sourced ids' chunk old id v payload).extend (List.prefix_append _ _)
  · cases List.mem_singleton.mp new
    rcases fetched _ rfl with empty | ⟨key, url, body, located, heard, cut⟩
    · rw [empty] at payload
      cases payload
    · have asked := Payloads.mem_of_split cut payload
      exact ⟨ids, _, asked, ⟨key, url, body, located, heard.inSecond k, cut⟩, payload⟩

end Sourced

variable {κ : Type} (c : ApiClient) (handler : Handler κ ApiClient.requests)

theorem obeys_refresh (plan : Refresh.Plan) (started : Instant) (tier : Tier) :
    Obeys (Honest c) (fun _ _ => True) []
      (RunningFeed.refresh ⟨handler, c.fetch⟩ plan started tier) := by
  have carried : ∀ h k op, Sourced c h k → Refresh.Orderly h op →
      Obeys (Honest c) (fun k' r => Sourced c (h ++ [⟨op, r⟩]) k') k
        (RunningFeed.carryRefresh ⟨handler, c.fetch⟩ op) := by
    intro h k op sourced orderly
    match op with
    | .inl step =>
      refine obeys_call (S := jobs) ?_ fun r => sourced.step step r _
      intro data written id v payload
      cases step with
      | store chunk =>
        cases written
        obtain ⟨ids, member⟩ := orderly.fetched data rfl
        exact sourced ids data member id v payload
      | _ => cases written
    | .inr (.chunk ids) => exact sourced.fetch ids
  have whole : Obeys (Honest c) (fun _ _ => True) []
      ((Refresh.run plan tier started).interpret
        (RunningFeed.carryRefresh ⟨handler, c.fetch⟩)) :=
    Obeys.interpret carried (fun _ _ _ _ _ => trivial) (Refresh.obeys_run plan tier started)
      Sourced.nothing
  exact whole.bind fun _ _ _ => obeys_pure trivial

def LastAccess (h : List (Exchanged jobs)) (e : Exchanged Cache.accesses) : Prop :=
  h.getLast? = some ⟨.inl (.inr e.op), e.answer⟩

private theorem obeys_reading {α : Type} (wrap : α → FeedResult) {p : Program readings α}
    {promise : List (Exchanged readings) → α → Prop}
    {promise' : List (Exchanged jobs) → FeedResult → Prop}
    (obeys : Obeys WritesFetches promise [] p)
    (ended : ∀ (h : List (Exchanged readings)) k a,
      (∀ e, Cache.LastAccess h e → LastAccess k e) → promise h a → promise' k (wrap a)) :
    Obeys (Honest c) promise' [] (RunningFeed.reading ⟨handler, c.fetch⟩ wrap p) := by
  have carried : ∀ (h : List (Exchanged readings)) k op,
      (Sourced c h k ∧ ∀ e, Cache.LastAccess h e → LastAccess k e) → WritesFetches h op →
      Obeys (Honest c)
        (fun k' r => Sourced c (h ++ [⟨op, r⟩]) k' ∧
          ∀ e, Cache.LastAccess (h ++ [⟨op, r⟩]) e → LastAccess k' e) k
        (RunningFeed.carryReading ⟨handler, c.fetch⟩ op) := by
    intro h k op ⟨sourced, last⟩ careful
    match op with
    | .inl access =>
      refine obeys_call (S := jobs) ?_ fun r => ⟨sourced.step access r _, fun e last => ?_⟩
      · intro data written id v payload
        cases access with
        | read ids => cases written
        | write data' =>
          cases written
          obtain ⟨ids, chunk, member, same⟩ := careful data rfl
          exact sourced ids chunk member id v (same id v payload)
      · have same := List.getLast?_concat.symm.trans last
        cases e
        cases same
        exact List.getLast?_concat
    | .inr (.chunk ids) =>
      refine (sourced.fetch ids).mono fun k' r sourced' => ⟨sourced', fun e last => ?_⟩
      have same := List.getLast?_concat.symm.trans last
      cases e
      cases same
  have start : Sourced c (F := Cache.accesses) [] [] ∧
      ∀ e, Cache.LastAccess (T := Client.fetches) [] e → LastAccess [] e :=
    ⟨Sourced.nothing, fun _ last => nomatch last⟩
  have whole : Obeys (Honest c) (fun k a => promise' k (wrap a)) []
      (p.interpret (RunningFeed.carryReading ⟨handler, c.fetch⟩)) :=
    Obeys.interpret carried (fun h k a known => ended h k a known.2) obeys start
  exact whole.bind fun _ _ kept => obeys_pure kept

theorem obeys_getJob (readThrough : Bool) (id : String) :
    Obeys (Honest c)
      (fun k r => ∀ v status, r = .got (.ok (v, status)) →
        ∃ e, LastAccess k e ∧ Cache.Holds e id v) []
      (RunningFeed.reading ⟨handler, c.fetch⟩ .got (get readThrough id)) := by
  refine obeys_reading c handler .got (obeys_get readThrough id) ?_
  intro h k r last gets v status same
  cases same
  obtain ⟨e, before, holds⟩ := gets v status rfl
  exact ⟨e, last e before, holds⟩

theorem obeys_getMultipleJob (ids : List String) :
    Obeys (Honest c)
      (fun k r => ∀ lookup, r = .lookedUp (.ok lookup) → LastAccess k ⟨.read ids, .ok lookup⟩) []
      (RunningFeed.reading ⟨handler, c.fetch⟩ .lookedUp (getMultiple ids)) := by
  refine obeys_reading c handler .lookedUp (obeys_getMultiple ids) ?_
  intro h k r last found lookup same
  cases same
  exact last _ (found lookup rfl)

end MarketFeed.Feed
