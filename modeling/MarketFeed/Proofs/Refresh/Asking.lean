import MarketFeed.Proofs.Program.Asking
import MarketFeed.Proofs.Tier.Ranks
import MarketFeed.Refresh
/-!
What a refresh can ask for at all, whatever it is answered: its own steps, the chunks of some list of
identifiers, and the second source only if its tier asks for it. It never has to break down.
-/

set_option autoImplicit false
set_option relaxedAutoImplicit false

namespace MarketFeed

open Program

private theorem ChunkFetch.asks_fetchFrom {P : requests.Op → Prop} (steps : ∀ op, P (.inl op))
    (delay : Duration) (total index : Nat) {chunks : List (List String)} (data : Payloads)
    (fetched : ∀ chunk ∈ chunks, P (.inr (.chunk chunk))) :
    (fetchFrom delay total index chunks data).Asks P := by
  induction chunks generalizing index data with
  | nil => exact asks_pure _
  | cons chunk rest ih =>
    have ⟨first, others⟩ := List.forall_mem_cons.mp fetched
    have prepares : (prepare delay index).Asks P :=
      asks_ite (fun _ => asks_pure _) fun _ => asks_call (S := requests) (.inl _) (steps _)
    refine prepares.bind fun signal => ?_
    cases signal with
    | cancelled => exact asks_pure _
    | elapsed =>
      refine (asks_call (S := requests) (.inr (.chunk chunk)) first).bind fun r => ?_
      cases r with
      | error e => exact asks_pure _
      | ok arrived =>
        refine (asks_call (S := requests) (.inl _) (steps _)).bind fun _ => ?_
        exact ih (index + 1) _ others

namespace Refresh

/-- Whether everything that a refresh of a tier can ask for is permitted. -/
structure Permits (plan : Plan) (t : Tier) (P : requests.Op → Prop) : Prop where
  step : ∀ op : Op, op ≠ .breakDown → (∀ limit, op ≠ .ids .supplementary limit) → P (.inl op)
  second : t.supplementary = true → P (.inl (.ids .supplementary 0))
  chunk : ∀ ids, ∀ chunk ∈ ChunkPlan.plan ids plan.mode plan.chunks, P (.inr (.chunk chunk))

structure PermitsBody (plan : Plan) (t : Tier) (P : requests.Op → Prop) : Prop where
  step : ∀ op : Op, op ≠ .breakDown → (∀ limit, op ≠ .ids .supplementary limit) →
    (∀ tier started ok, op ≠ .finish tier started ok) → P (.inl op)
  second : t.supplementary = true → P (.inl (.ids .supplementary 0))
  chunk : ∀ ids, ∀ chunk ∈ ChunkPlan.plan ids plan.mode plan.chunks, P (.inr (.chunk chunk))

variable {plan : Plan} {t : Tier} {P : requests.Op → Prop}

theorem Permits.body (permits : Permits plan t P) : PermitsBody plan t P :=
  ⟨fun op safe first _ => permits.step op safe first, permits.second, permits.chunk⟩

private theorem PermitsBody.asks_step (permits : PermitsBody plan t P) (op : Op)
    (safe : op ≠ .breakDown) (first : ∀ limit, op ≠ .ids .supplementary limit)
    (before : ∀ tier started ok, op ≠ .finish tier started ok) :
    (Program.call (S := requests) (.inl op)).Asks P :=
  asks_call (S := requests) (.inl op) (permits.step op safe first before)

private theorem PermitsBody.asks_deliver (permits : PermitsBody plan t P) (feed tier : String)
    (chunk : Payloads) : (deliver feed tier chunk).Asks P := by
  refine asks_ite (fun _ => asks_pure ()) fun _ => ?_
  refine (permits.asks_step (.store chunk) nofun nofun nofun).bind fun r => ?_
  match r with
  | .error e => exact asks_pure ()
  | .ok () => exact permits.asks_step (.publish _) nofun nofun nofun

private theorem PermitsBody.asks_fetchAll (permits : PermitsBody plan t P) (tier : String)
    (ids : List String) : (fetchAll plan tier ids).Asks P := by
  have carried : ∀ op : ChunkFetch.requests.Op,
      (∀ fetch, op = .inr fetch → P (.inr fetch)) → (carryOut plan.feed tier op).Asks P := by
    intro op allowed
    match op with
    | .inl (.pause d) => exact permits.asks_step (.pause d) nofun nofun nofun
    | .inl (.deliver chunk) => exact permits.asks_deliver plan.feed tier chunk
    | .inr fetch => exact asks_call (S := requests) (.inr fetch) (allowed fetch rfl)
  refine (Asks.interpret carried (ChunkFetch.asks_fetchFrom (fun _ => nofun) _ _ 0 ∅ ?_)).bind
    fun _ => asks_pure _
  intro chunk member fetch same
  cases same
  exact permits.chunk ids chunk member

private theorem PermitsBody.asks_withExtra (permits : PermitsBody plan t P) (fetched : Payloads) :
    (withExtra plan t fetched).Asks P := by
  have extra (supplementary : t.supplementary = true) :
      (fetchExtra plan t.name fetched).Asks P := by
    refine (asks_call (S := requests) (.inl (.ids .supplementary 0))
      (permits.second supplementary)).bind fun r => ?_
    match r with
    | none => exact asks_pure _
    | some (.error e) => exact asks_pure _
    | some (.ok more) =>
      exact asks_ite (fun _ => asks_pure _) fun _ => permits.asks_fetchAll _ _
  refine asks_ite (fun supplementary => (extra supplementary).bind fun r => ?_) fun _ => asks_pure _
  cases r with
  | ok data => exact asks_pure _
  | error e => exact asks_ite (fun _ => asks_pure _) fun _ => asks_pure _

private theorem PermitsBody.asks_conclude (permits : PermitsBody plan t P) (ranks requested : Nat)
    (data : Payloads) : (conclude plan t ranks requested data).Asks P := by
  refine asks_ite (fun _ => asks_pure _) fun _ => ?_
  refine (permits.asks_step .markReady nofun nofun nofun).bind fun _ => ?_
  exact (permits.asks_step (.publish _) nofun nofun nofun).bind fun _ => asks_pure _

theorem PermitsBody.asks_body (permits : PermitsBody plan t P) (range : t.IsRange) :
    (body plan t).Asks P := by
  refine (permits.asks_step (.ids .ranked _) nofun nofun nofun).bind fun r => ?_
  match r with
  | none => exact asks_pure _
  | some (.error e) => exact asks_pure _
  | some (.ok ranked) =>
    dsimp only
    rw [Tier.slice?_eq range]
    refine asks_ite (fun _ => asks_pure _) fun _ => (permits.asks_fetchAll _ _).bind fun r => ?_
    cases r with
    | error e => exact asks_pure _
    | ok fetched =>
      refine (permits.asks_withExtra fetched).bind fun r => ?_
      cases r with
      | error e => exact asks_pure _
      | ok data => exact permits.asks_conclude _ _ data

/-- A refresh of a tier with a proper range asks for nothing but what is permitted. -/
theorem Permits.asks_run (permits : Permits plan t P) (range : t.IsRange) (started : Instant) :
    (run plan t started).Asks P := by
  refine (permits.body.asks_body range).bind fun r => ?_
  have ends := permits.step (.finish t.name started (succeeded r)) nofun nofun
  exact (asks_call (S := requests) (.inl _) ends).bind fun _ => asks_pure _

end Refresh

end MarketFeed
