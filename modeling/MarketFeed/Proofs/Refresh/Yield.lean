import MarketFeed.Proofs.Feed.Effects
import MarketFeed.Proofs.Refresh.Publication
import MarketFeed.Proofs.Refresh.Ranks
import MarketFeed.Proofs.Schedule.Pace
/-!
Refreshes whose own ranks yield nothing. Only the second source can still make a success of them: if
it brings nothing either, the refresh fails, and neither the flag of its feed nor the last update of
any tier tells of it.
-/

set_option autoImplicit false
set_option relaxedAutoImplicit false

namespace MarketFeed

namespace Refresh

open Program Simulation

/-- A request that announces no completion and leaves the flag of a feed and the last update of every
tier as they are. -/
structure Unnoticed (op : requests.Op) : Prop where
  announces : ¬ IsCompletion op
  ready : ∀ step, op = .inl step → ∀ now cancelled (f : FeedState),
    (FeedState.startStep now cancelled step f).2.ready = f.ready
  updated : ∀ step, op = .inl step → ∀ now cancelled (f : FeedState) name,
    ((FeedState.startStep now cancelled step f).2.schedule.stateOf name).lastUpdate =
      (f.schedule.stateOf name).lastUpdate

def Arrives (h : List (Exchanged requests)) (id : String) : Prop :=
  ∃ ids chunk, (⟨.inr (.chunk ids), .ok chunk⟩ : Exchanged requests) ∈ h ∧ chunk.contains id = true

/-- Every chunk of a part of a history arrived, and none of them has any payload. -/
structure Barren (h : List (Exchanged requests)) : Prop where
  smooth : ∀ e ∈ h, ¬ Fails e
  empty : ∀ id, ¬ Arrives h id

/-- Nothing failed, and some payload arrived. -/
structure Fruitful (h : List (Exchanged requests)) : Prop where
  smooth : ∀ e ∈ h, ¬ Fails e
  arrives : ∃ id, Arrives h id

def Fetching : requests.Op → Prop
  | .inl (.pause _) | .inl (.store _) | .inr _ => True
  | .inl (.publish event) => event.isCompletion = false
  | .inl (.ids _ _) | .inl .markReady | .inl (.finish _ _ _) | .inl .breakDown => False

/-- How a fetch that begins with `data` ends: nothing failed and what arrived was added, or something
failed. -/
def Gathers (data : Payloads) (h : List (Exchanged requests)) {ε : Type} : Except ε Payloads → Prop
  | .ok d => (∀ e ∈ h, ¬ Fails e) ∧ ∀ id, d.contains id = true ↔ data.contains id = true ∨ Arrives h id
  | .error _ => ∃ e ∈ h, Fails e

section Histories

variable {h k : List (Exchanged requests)} {id : String}

theorem arrives_append : Arrives (h ++ k) id ↔ Arrives h id ∨ Arrives k id := by
  simp only [Arrives, List.mem_append, or_and_right, exists_or]

theorem arrives_fetched {ids : List String} {chunk : Payloads} :
    Arrives [⟨.inr (.chunk ids), .ok chunk⟩] id ↔ chunk.contains id = true := by
  constructor
  · rintro ⟨ids', chunk', member, contained⟩
    cases List.mem_singleton.mp member
    exact contained
  · exact fun contained => ⟨ids, chunk, List.mem_singleton_self _, contained⟩

theorem not_arrives_of_steps (steps : ∀ e ∈ h, ∃ step, e.op = .inl step) : ¬ Arrives h id := by
  rintro ⟨ids, chunk, member, -⟩
  obtain ⟨step, same⟩ := steps _ member
  cases same

theorem Barren.of_subset (barren : Barren k) (part : h ⊆ k) : Barren h where
  smooth e member := barren.smooth e (part member)
  empty id := by
    rintro ⟨ids, chunk, member, contained⟩
    exact barren.empty id ⟨ids, chunk, part member, contained⟩

theorem barren_of_steps (steps : ∀ e ∈ h, (∃ step, e.op = .inl step) ∧ ¬ Fails e) : Barren h where
  smooth e member := (steps e member).2
  empty _ := not_arrives_of_steps fun e member => (steps e member).1

theorem fruitful_iff : Fruitful h ↔ (∀ e ∈ h, ¬ Fails e) ∧ ∃ id, Arrives h id :=
  ⟨fun fruitful => ⟨fruitful.smooth, fruitful.arrives⟩, fun both => ⟨both.1, both.2⟩⟩

theorem fruitful_append : Fruitful (h ++ k) ↔
    ((∀ e ∈ h, ¬ Fails e) ∧ ∀ e ∈ k, ¬ Fails e) ∧ ((∃ id, Arrives h id) ∨ ∃ id, Arrives k id) := by
  simp only [fruitful_iff, arrives_append, exists_or, List.forall_mem_append]

theorem Barren.fruitful_append (barren : Barren h) : Fruitful (h ++ k) ↔ Fruitful k := by
  rw [Refresh.fruitful_append, and_iff_right barren.smooth,
    or_iff_right fun ⟨id, arrives⟩ => barren.empty id arrives, fruitful_iff]

theorem Barren.append_fruitful (barren : Barren k) : Fruitful (h ++ k) ↔ Fruitful h := by
  rw [Refresh.fruitful_append, and_iff_left barren.smooth,
    or_iff_left fun ⟨id, arrives⟩ => barren.empty id arrives, fruitful_iff]

theorem unnoticed_of {op : requests.Op} (marks : op ≠ .inl .markReady) (announces : ¬ IsCompletion op)
    (records : ∀ tier started, op ≠ .inl (.finish tier started true)) : Unnoticed op where
  announces := announces
  ready := by
    rintro step rfl now cancelled f
    exact FeedState.startStep_ready now cancelled f fun same => marks (congrArg Sum.inl same)
  updated := by
    rintro step rfl now cancelled f name
    by_cases finishes : ∃ tier started, step = .finish tier started false
    · obtain ⟨tier, started, rfl⟩ := finishes
      exact f.schedule.finish_failed_lastUpdate tier started now name
    · have kept : (FeedState.startStep now cancelled step f).2.schedule = f.schedule := by
        refine FeedState.startStep_schedule now cancelled f ?_
        rintro tier started (_ | _) rfl
        · exact finishes ⟨tier, started, rfl⟩
        · exact records tier started rfl
      rw [kept]

theorem Fetching.unnoticed {op : requests.Op} (fetching : Fetching op) : Unnoticed op := by
  refine unnoticed_of ?_ ?_ ?_
  · rintro rfl
    exact fetching
  · match op with
    | .inl (.publish (.tierCompleted _ _ _)) | .inl (.publish (.refreshCompleted _ _)) =>
      cases fetching
    | .inl (.publish (.chunkStored _ _ _)) | .inl (.pause _) | .inl (.store _) | .inl (.ids _ _) | .inl .markReady | .inl (.finish _ _ _)
    | .inl .breakDown | .inr _ => exact id
  · rintro tier started rfl
    exact fetching

theorem Fetching.asksSecond {e : Exchanged requests} (fetching : Fetching e.op) :
    asksSecond e = false := by
  obtain ⟨op, answer⟩ := e
  match op with
  | .inl (.ids _ _) => exact fetching.elim
  | .inl (.pause _) | .inl (.store _) | .inl (.publish _) | .inl .markReady | .inl (.finish _ _ _)
  | .inl .breakDown | .inr _ => rfl

theorem mainPart_append (ahead : ∀ e ∈ h, asksSecond e = false) :
    mainPart (h ++ k) = h ++ mainPart k :=
  List.takeWhile_append_of_pos fun e member => Bool.not_eq_true' _ ▸ ahead e member

end Histories

/-! ### The fetch of a list -/

section Fetches

variable {feed tier : String} {plan : Plan} {h : List (Exchanged requests)}

private theorem runs_deliver {chunk : Payloads} (runs : Runs (deliver feed tier chunk) h ()) :
    ∀ e ∈ h, (∃ step, e.op = .inl step) ∧ Fetching e.op ∧ ¬ Fails e := by
  rw [deliver] at runs
  split at runs
  · obtain ⟨rfl, -⟩ := runs_pure runs
    exact List.forall_mem_nil _
  · obtain ⟨answer, k, rfl, further⟩ := runs_call_bind (S := requests) (.inl (.store chunk)) runs
    refine List.forall_mem_cons.mpr ⟨⟨⟨_, rfl⟩, trivial, id⟩, ?_⟩
    cases answer with
    | error e =>
      obtain ⟨rfl, -⟩ := runs_pure further
      exact List.forall_mem_nil _
    | ok u =>
      rw [runs_call (S := requests) further, List.forall_mem_singleton]
      exact ⟨⟨_, rfl⟩, rfl, id⟩

private theorem Gathers.arrived {data chunk : Payloads} {ids : List String} {ε : Type}
    {r : Except ε Payloads} {p d : List (Exchanged requests)} (before : Barren p) (behind : Barren d)
    (gathers : Gathers (data.union chunk) h r) :
    Gathers data (p ++ ⟨.inr (.chunk ids), .ok chunk⟩ :: (d ++ h)) r := by
  rw [List.append_cons, ← List.append_assoc]
  cases r with
  | error e =>
    obtain ⟨x, member, fails⟩ := gathers
    exact ⟨x, List.mem_append_right _ member, fails⟩
  | ok all =>
    obtain ⟨smooth, added⟩ := gathers
    refine ⟨?_, fun id => ?_⟩
    · simp only [List.forall_mem_append, List.forall_mem_singleton]
      exact ⟨⟨⟨before.smooth, id⟩, behind.smooth⟩, smooth⟩
    · rw [added, contains_union, arrives_append, arrives_append, arrives_append, arrives_fetched,
        or_iff_left (behind.empty id), or_iff_right (before.empty id), or_assoc]

private theorem runs_prepare {delay : Duration} {index : Nat} {signal : Signal}
    (runs : Runs ((ChunkFetch.prepare delay index).interpret (carryOut feed tier)) h signal) :
    (∀ e ∈ h, (∃ step, e.op = .inl step) ∧ Fetching e.op) ∧
      (signal = .elapsed → ∀ e ∈ h, ¬ Fails e) ∧ (signal = .cancelled → ∃ e ∈ h, Fails e) := by
  rw [ChunkFetch.prepare] at runs
  split at runs
  · obtain ⟨rfl, rfl⟩ := runs_pure runs
    exact ⟨List.forall_mem_nil _, fun _ => List.forall_mem_nil _, by rintro ⟨⟩⟩
  · have carried : (ChunkFetch.pause delay).interpret (carryOut feed tier) =
        Program.call (S := requests) (.inl (.pause delay)) :=
      interpret_call (S := ChunkFetch.requests) (carryOut feed tier) (.inl (.pause delay))
    rw [carried] at runs
    cases runs_call (S := requests) runs
    refine ⟨List.forall_mem_singleton.mpr ⟨⟨_, rfl⟩, trivial⟩, ?_, ?_⟩
    · rintro rfl
      exact List.forall_mem_singleton.mpr id
    · rintro rfl
      exact ⟨_, List.mem_singleton_self _, trivial⟩

private theorem runs_fetchFrom {delay : Duration} {total index : Nat} {chunks : List (List String)}
    {data : Payloads} {r : Except FetchError Payloads}
    (runs : Runs ((ChunkFetch.fetchFrom delay total index chunks data).interpret (carryOut feed tier))
      h r) : (∀ e ∈ h, Fetching e.op) ∧ Gathers data h r := by
  induction chunks generalizing index data h with
  | nil =>
    obtain ⟨rfl, rfl⟩ := runs_pure runs
    exact ⟨nofun, nofun, fun id => (or_iff_left nofun).symm⟩
  | cons chunk chunks ih =>
    rw [ChunkFetch.fetchFrom, bind_eq, interpret_bind] at runs
    obtain ⟨p, k, signal, rfl, preparing, fetching⟩ := runs_bind runs
    obtain ⟨steps, paused, stopped⟩ := runs_prepare preparing
    cases signal with
    | cancelled =>
      obtain ⟨rfl, rfl⟩ := runs_pure fetching
      rw [List.append_nil]
      exact ⟨fun e member => (steps e member).2, stopped rfl⟩
    | elapsed =>
      obtain ⟨answer, k, rfl, going⟩ := runs_call_bind (S := requests) (.inr (.chunk chunk)) fetching
      cases answer with
      | error e =>
        obtain ⟨rfl, rfl⟩ := runs_pure going
        refine ⟨?_, _, List.mem_append_right _ List.mem_cons_self, trivial⟩
        rw [List.forall_mem_append, List.forall_mem_singleton]
        exact ⟨fun e member => (steps e member).2, trivial⟩
      | ok arrived =>
        have carried : (ChunkFetch.deliver arrived).interpret (carryOut feed tier) =
            deliver feed tier arrived :=
          interpret_call (S := ChunkFetch.requests) (carryOut feed tier) (.inl (.deliver arrived))
        change Runs (((ChunkFetch.deliver arrived).bind _).interpret (carryOut feed tier)) k r at going
        rw [interpret_bind, carried] at going
        obtain ⟨d, k, _, rfl, delivering, onward⟩ := runs_bind going
        have delivered := runs_deliver delivering
        obtain ⟨fetches, gathers⟩ := ih onward
        have before : Barren p :=
          barren_of_steps fun e member => ⟨(steps e member).1, paused rfl e member⟩
        have behind : Barren d :=
          barren_of_steps fun e member => ⟨(delivered e member).1, (delivered e member).2.2⟩
        refine ⟨?_, gathers.arrived before behind⟩
        rw [List.forall_mem_append, List.forall_mem_cons, List.forall_mem_append]
        exact ⟨fun e member => (steps e member).2, trivial, fun e member => (delivered e member).2.1,
          fetches⟩

theorem runs_fetchAll {tier : String} {ids : List String} {r : Except RefreshError Payloads}
    (runs : Runs (fetchAll plan tier ids) h r) : (∀ e ∈ h, Fetching e.op) ∧ Gathers ∅ h r := by
  obtain ⟨k, l, result, rfl, fetching, ended⟩ := runs_bind runs
  obtain ⟨rfl, rfl⟩ := runs_pure ended
  rw [List.append_nil]
  obtain ⟨fetches, gathers⟩ := runs_fetchFrom fetching
  cases result with
  | ok d => exact ⟨fetches, gathers⟩
  | error e => exact ⟨fetches, gathers⟩

private theorem runs_fetchExtra {tier : String} {fetched : Payloads} {r : Except RefreshError Payloads}
    (runs : Runs (fetchExtra plan tier fetched) h r) :
    (∀ e ∈ h, Unnoticed e.op) ∧
      (∀ d, r = .ok d → (∀ e ∈ h, ¬ Fails e) ∧ ∀ id, d.contains id = true ↔ Arrives h id) ∧
      ∀ e, r = .error e → ¬ Fruitful h := by
  obtain ⟨answer, k, rfl, going⟩ :=
    runs_call_bind (S := requests) (.inl (.ids .supplementary 0)) runs
  have asks : Unnoticed (.inl (.ids .supplementary 0)) := unnoticed_of nofun id nofun
  have silent : ∀ id, ¬ Arrives [⟨.inl (.ids .supplementary 0), answer⟩] id := fun id =>
    not_arrives_of_steps (List.forall_mem_singleton.mpr ⟨_, rfl⟩)
  have alone : (∀ e ∈ ([⟨.inl (.ids .supplementary 0), answer⟩] : List (Exchanged requests)),
      Unnoticed e.op) := List.forall_mem_singleton.mpr asks
  -- without anything to fetch, the source has brought nothing
  have nothing : k = [] → r = .ok ∅ → (∀ d, r = .ok d →
      (∀ e ∈ (⟨.inl (.ids .supplementary 0), answer⟩ : Exchanged requests) :: k, ¬ Fails e) ∧
        ∀ id, d.contains id = true ↔
          Arrives ((⟨.inl (.ids .supplementary 0), answer⟩ : Exchanged requests) :: k) id) := by
    rintro rfl rfl d ok
    cases ok
    exact ⟨List.forall_mem_singleton.mpr id, fun id => iff_of_false nofun (silent id)⟩
  match answer with
  | none =>
    obtain ⟨rfl, rfl⟩ := runs_pure going
    exact ⟨alone, nothing rfl rfl, nofun⟩
  | some (.error e) =>
    obtain ⟨rfl, rfl⟩ := runs_pure going
    exact ⟨alone, nofun, fun _ _ fruitful => fruitful.arrives.elim silent⟩
  | some (.ok more) =>
    change Runs (if (extraIds fetched more).isEmpty then pure (.ok ∅)
      else fetchAll plan tier (extraIds fetched more)) k r at going
    split at going
    · obtain ⟨rfl, rfl⟩ := runs_pure going
      exact ⟨alone, nothing rfl rfl, nofun⟩
    · obtain ⟨fetches, gathers⟩ := runs_fetchAll going
      refine ⟨List.forall_mem_cons.mpr ⟨asks, fun e member => (fetches e member).unnoticed⟩, ?_, ?_⟩
      · rintro d rfl
        obtain ⟨smooth, arrived⟩ := gathers
        refine ⟨List.forall_mem_cons.mpr ⟨id, smooth⟩, fun id => ?_⟩
        rw [arrived, ← List.singleton_append, arrives_append, or_iff_right (silent id)]
        exact or_iff_right nofun
      · rintro e rfl fruitful
        obtain ⟨x, member, fails⟩ := gathers
        exact fruitful.smooth x (List.mem_cons_of_mem _ member) fails

private theorem runs_withExtra {t : Tier} {fetched : Payloads} {r : Except RefreshError Payloads}
    (runs : Runs (withExtra plan t fetched) h r) :
    (∀ e ∈ h, Unnoticed e.op) ∧
      (∀ d, r = .ok d → ∀ id, d.contains id = true ↔
        fetched.contains id = true ∨ Fruitful h ∧ Arrives h id) ∧
      ∀ e, r = .error e → e.isCancelled = true := by
  rw [withExtra] at runs
  split at runs
  next =>
    obtain ⟨k, l, extra, rfl, fetching, ended⟩ := runs_bind runs
    obtain ⟨unnoticed, brought, failed⟩ := runs_fetchExtra fetching
    cases extra with
    | ok d =>
      obtain ⟨rfl, rfl⟩ := runs_pure ended
      obtain ⟨smooth, arrived⟩ := brought d rfl
      rw [List.append_nil]
      refine ⟨unnoticed, ?_, by rintro _ ⟨⟩⟩
      rintro _ ⟨⟩ id
      rw [contains_union, arrived, and_iff_right_of_imp]
      exact fun arrives => ⟨smooth, id, arrives⟩
    | error e =>
      change Runs (if e.isCancelled then pure (.error e) else pure (.ok fetched)) l r at ended
      split at ended
      · rename_i cancelled
        obtain ⟨rfl, rfl⟩ := runs_pure ended
        rw [List.append_nil]
        refine ⟨unnoticed, by rintro _ ⟨⟩, ?_⟩
        rintro _ ⟨⟩
        exact cancelled
      · obtain ⟨rfl, rfl⟩ := runs_pure ended
        rw [List.append_nil]
        refine ⟨unnoticed, ?_, by rintro _ ⟨⟩⟩
        rintro _ ⟨⟩ id
        exact (or_iff_left fun brings => failed e rfl brings.1).symm
  next =>
    obtain ⟨rfl, rfl⟩ := runs_pure runs
    refine ⟨List.forall_mem_nil _, ?_, by rintro _ ⟨⟩⟩
    rintro _ ⟨⟩ id
    refine (or_iff_left fun brings => ?_).symm
    obtain ⟨ids, chunk, member, -⟩ := brings.2
    exact List.not_mem_nil member

private theorem isEmpty_iff {data : Payloads} :
    data.isEmpty = true ↔ ∀ id, data.contains id = false := by
  constructor
  · intro empty id
    by_contra held
    obtain ⟨payload, got⟩ := Option.isSome_iff_exists.mp (Bool.not_eq_false _ ▸ held)
    rw [Table.isEmpty_of_get? got] at empty
    cases empty
  · intro missing
    rw [Table.isEmpty, List.isEmpty_iff]
    by_contra filled
    obtain ⟨⟨id, payload⟩, member⟩ := List.exists_mem_of_ne_nil _ filled
    have held := (Table.mem_entries_iff data id payload).mp member
    exact Bool.false_ne_true ((missing id).symm.trans (Option.isSome_iff_exists.mpr ⟨payload, held⟩))

/-- How the rest of a refresh ends whose own ranks have yielded nothing: it announces what the second source
brought, or it fails and goes unnoticed. -/
def Decides (plan : Plan) (t : Tier) (ranks requested : Nat) (h : List (Exchanged requests))
    (r : Except RefreshError Nat) : Prop :=
  (Fruitful h → ∃ n, 0 < n ∧ r = .ok n ∧
      [⟨.inl .markReady, ()⟩, ⟨.inl (.publish (completion plan t n)), ()⟩] <:+ h) ∧
    (¬ Fruitful h → r = .error (.zeroYield t.name t.idFrom (min t.idTo ranks) requested) ∧
      ∀ e ∈ h, Unnoticed e.op)

private theorem runs_extended {t : Tier} {fetched : Payloads} {ranks requested : Nat}
    {r : Except RefreshError Nat}
    (runs : Runs (do
      match ← withExtra plan t fetched with
      | .error e => return .error e
      | .ok data => conclude plan t ranks requested data) h r)
    (nothing : ∀ id, fetched.contains id = false)
    (uncancelled : ∀ e, r = .error e → e.isCancelled = false) :
    Decides plan t ranks requested h r := by
  obtain ⟨k, l, result, rfl, extending, concluding⟩ := runs_bind runs
  obtain ⟨unnoticed, brought, failed⟩ := runs_withExtra extending
  cases result with
  | error e =>
    obtain ⟨-, rfl⟩ := runs_pure concluding
    exact absurd (failed e rfl) (Bool.eq_false_iff.mp (uncancelled e rfl))
  | ok data =>
    have held : ∀ id, data.contains id = true ↔ Fruitful k ∧ Arrives k id := by
      intro id
      rw [brought data rfl, nothing id]
      exact or_iff_right Bool.false_ne_true
    change Runs (if data.isEmpty then
        pure (.error (.zeroYield t.name t.idFrom (min t.idTo ranks) requested))
      else markReady.bind fun _ => (publish (completion plan t data.size)).bind fun _ =>
        pure (.ok data.size)) l r at concluding
    split at concluding
    next empty =>
      obtain ⟨rfl, rfl⟩ := runs_pure concluding
      rw [List.append_nil]
      refine ⟨fun fruitful => ?_, fun _ => ⟨rfl, unnoticed⟩⟩
      obtain ⟨id, arrives⟩ := fruitful.arrives
      have contained := (held id).mpr ⟨fruitful, arrives⟩
      rw [isEmpty_iff.mp empty id] at contained
      cases contained
    next filled =>
      obtain ⟨_, l, rfl, announcing⟩ := runs_call_bind (S := requests) (.inl .markReady) concluding
      obtain ⟨_, l, rfl, ended⟩ := runs_call_bind (S := requests) (.inl (.publish _)) announcing
      obtain ⟨rfl, rfl⟩ := runs_pure ended
      have fruitful : Fruitful k := by
        by_contra unfruitful
        refine filled (isEmpty_iff.mpr fun id => ?_)
        rw [Bool.eq_false_iff]
        exact fun contained => unfruitful ((held id).mp contained).1
      have positive : 0 < data.size := by
        rw [Table.size, List.length_pos_iff, ne_eq, ← List.isEmpty_iff]
        exact filled
      refine ⟨fun _ => ⟨data.size, positive, rfl, List.suffix_append _ _⟩, fun unfruitful => ?_⟩
      have barren : Barren [⟨.inl .markReady, ()⟩,
          ⟨.inl (.publish (completion plan t data.size)), ()⟩] :=
        barren_of_steps (List.forall_mem_cons.mpr
          ⟨⟨⟨_, rfl⟩, id⟩, List.forall_mem_singleton.mpr ⟨⟨_, rfl⟩, id⟩⟩)
      exact absurd (barren.append_fruitful.mpr fruitful) unfruitful

private theorem runs_slice {t : Tier} {slice : List String} {ranks : Nat} {r : Except RefreshError Nat}
    (runs : Runs (do
      match ← fetchAll plan t.name slice with
      | .error e => return .error e
      | .ok fetched =>
        match ← withExtra plan t fetched with
        | .error e => return .error e
        | .ok data => conclude plan t ranks slice.length data) h r)
    (uncancelled : ∀ e, r = .error e → e.isCancelled = false) :
    ∃ m k, h = m ++ k ∧ (∀ e ∈ m, Fetching e.op) ∧
      (Barren m → Decides plan t ranks slice.length k r) := by
  obtain ⟨m, k, main, rfl, fetching, further⟩ := runs_bind runs
  obtain ⟨fetches, gathers⟩ := runs_fetchAll fetching
  refine ⟨m, k, rfl, fetches, fun barren => ?_⟩
  cases main with
  | error e =>
    obtain ⟨e, member, fails⟩ := gathers
    exact absurd fails (barren.smooth e member)
  | ok fetched =>
    refine runs_extended further (fun id => ?_) uncancelled
    rw [Bool.eq_false_iff, ne_eq, gathers.2 id, or_iff_left (barren.empty id)]
    exact nofun

end Fetches

private theorem isCancelled_tell (t : Tier) (e : RefreshError) :
    (tell t e).isCancelled = e.isCancelled := by
  unfold tell
  split
  · rfl
  · cases e <;> rfl

/-- A refresh whose own ranks yield nothing, though none of its fetches fails. Unless it is cancelled,
it succeeds if nothing fails later either and something does arrive from the second source; then the
feed is marked as ready and the completion announced. Otherwise it fails with the number of identifiers
that were asked for, and neither the flag of the feed, nor the last update of any tier, nor an
announcement tells of it. -/
theorem yields_nothing_unless_second {plan : Plan} {t : Tier} {started : Instant}
    {h : List (Exchanged requests)} {result : Except RefreshError Nat}
    (runs : Runs (run plan t started) h result) {limit : Nat} {ranked slice : List String}
    (ranks : h.head? = some ⟨.inl (.ids .ranked limit), some (.ok ranked)⟩)
    (cut : t.slice? ranked = some slice) (wanted : slice ≠ []) (barren : Barren (mainPart h))
    (uncancelled : ∀ e, result = .error e → e.isCancelled = false) :
    (Fruitful h → ∃ n, 0 < n ∧ result = .ok n ∧ [⟨.inl .markReady, ()⟩,
        ⟨.inl (.publish (completion plan t n)), ()⟩, ⟨.inl (.finish t.name started true), ()⟩] <:+ h) ∧
      (¬ Fruitful h →
        result = .error (.zeroYield t.name t.idFrom (min t.idTo ranked.length) slice.length) ∧
        h.getLast? = some ⟨.inl (.finish t.name started false), ()⟩ ∧ ∀ e ∈ h, Unnoticed e.op) := by
  obtain ⟨k, l, r, rfl, going, finishing⟩ := runs_bind runs
  obtain ⟨_, l, rfl, ended⟩ := runs_call_bind (S := requests) (.inl (.finish _ _ _)) finishing
  obtain ⟨rfl, rfl⟩ := runs_pure ended
  obtain ⟨answer, k, rfl, sliced⟩ := runs_call_bind (S := requests) (.inl (.ids .ranked _)) going
  cases Option.some.inj ranks
  dsimp only at sliced
  rw [cut] at sliced
  change Runs (if slice.isEmpty then _ else (fetchAll plan t.name slice).bind _) k r at sliced
  rw [if_neg (by rwa [List.isEmpty_iff])] at sliced
  have told : ∀ e, r = .error e → e.isCancelled = false := by
    rintro e rfl
    exact (isCancelled_tell t e).symm.trans (uncancelled _ rfl)
  obtain ⟨m, k, rfl, fetches, decides⟩ := runs_slice sliced told
  have ahead : ∀ e ∈ m, asksSecond e = false := fun e member => (fetches e member).asksSecond
  have early : Barren m := by
    refine barren.of_subset ?_
    change m ⊆ _ :: mainPart (m ++ k ++ _)
    rw [List.append_assoc, mainPart_append ahead]
    exact List.subset_cons_of_subset _ (List.subset_append_left _ _)
  obtain ⟨brings, fails⟩ := decides early
  have asked : Barren [⟨.inl (.ids .ranked (ranksRead plan t)), some (.ok ranked)⟩] :=
    barren_of_steps (List.forall_mem_singleton.mpr ⟨⟨_, rfl⟩, id⟩)
  have ended : Barren [⟨.inl (.finish t.name started (succeeded r)), ()⟩] :=
    barren_of_steps (List.forall_mem_singleton.mpr ⟨⟨_, rfl⟩, id⟩)
  have fruitful : Fruitful ([⟨.inl (.ids .ranked (ranksRead plan t)), some (.ok ranked)⟩] ++
      (m ++ k) ++ [⟨.inl (.finish t.name started (succeeded r)), ()⟩]) ↔ Fruitful k := by
    rw [ended.append_fruitful, asked.fruitful_append, early.fruitful_append]
  refine ⟨fun brought => ?_, fun missed => ?_⟩
  · obtain ⟨n, positive, rfl, last⟩ := brings (fruitful.mp brought)
    exact ⟨n, positive, rfl, List.suffix_append_self_iff.mpr
      ((last.trans (List.suffix_append m k)).trans (List.suffix_cons _ _))⟩
  · obtain ⟨rfl, unnoticed⟩ := fails fun brought => missed (fruitful.mpr brought)
    have asks : Unnoticed (.inl (.ids .ranked (ranksRead plan t))) := unnoticed_of nofun id nofun
    have ends : Unnoticed (.inl (.finish t.name started false)) := by
      refine unnoticed_of nofun id ?_
      rintro _ _ ⟨⟩
    refine ⟨rfl, List.getLast?_concat, ?_⟩
    rw [List.forall_mem_append, List.forall_mem_cons, List.forall_mem_append,
      List.forall_mem_singleton]
    exact ⟨⟨asks, fun e member => (fetches e member).unnoticed, unnoticed⟩, ends⟩

def topTwo : Tier := ⟨"top", 1, 2, Duration.ofSeconds 60, true⟩

def pairwise : Plan := ⟨"prices", true, .batch, ⟨2, 2000, 0⟩⟩

def opening : List (Exchanged requests) :=
  [⟨.inl (.ids .ranked 2), some (.ok ["a", "b"])⟩, ⟨.inr (.chunk ["a", "b"]), .ok ∅⟩]

private theorem barren_opening : Barren opening where
  smooth := by simp [opening, Fails]
  empty id := by
    have asked : Barren [⟨.inl (.ids .ranked 2), some (.ok ["a", "b"])⟩] :=
      barren_of_steps (List.forall_mem_singleton.mpr ⟨⟨_, rfl⟩, nofun⟩)
    rw [opening, ← List.singleton_append, arrives_append, or_iff_right (asked.empty id),
      arrives_fetched]
    exact nofun

def missed : List (Exchanged requests) :=
  opening ++ [⟨.inl (.ids .supplementary 0), some (.ok ["x", "y", "z"])⟩,
    ⟨.inr (.chunk ["x", "y"]), .ok (Table.ofList [("x", "1".toUTF8.toList), ("y", "2".toUTF8.toList)])⟩,
    ⟨.inl (.store (Table.ofList [("x", "1".toUTF8.toList), ("y", "2".toUTF8.toList)])), .ok ()⟩,
    ⟨.inl (.publish (.chunkStored "prices" "top" 2)), ()⟩,
    ⟨.inr (.chunk ["z"]), .error (.status 404 "")⟩, ⟨.inl (.finish "top" 0 false), ()⟩]

theorem yields_nothing_unless_second_missed :
    Runs (run pairwise topTwo 0) missed (.error (.zeroYield "top" 1 2 2)) ∧
      topTwo.slice? ["a", "b"] = some ["a", "b"] ∧ Barren (mainPart missed) ∧ ¬ Fruitful missed ∧
      ∀ e ∈ missed, Unnoticed e.op := by
  have runs : Runs (run pairwise topTwo 0) missed (.error (.zeroYield "top" 1 2 2)) :=
    .ask (.ask (.ask (.ask (.ask (.ask (.ask (.ask (.done _))))))))
  have unfruitful : ¬ Fruitful missed := fun fruitful =>
    fruitful.smooth ⟨.inr (.chunk ["z"]), .error (.status 404 "")⟩ (by simp [missed]) trivial
  obtain ⟨-, silent⟩ := yields_nothing_unless_second runs rfl rfl (List.cons_ne_nil _ _)
    barren_opening (by rintro _ ⟨⟩; rfl)
  exact ⟨runs, rfl, barren_opening, unfruitful, (silent unfruitful).2.2⟩

def rescued : List (Exchanged requests) :=
  opening ++ [⟨.inl (.ids .supplementary 0), some (.ok ["x"])⟩,
    ⟨.inr (.chunk ["x"]), .ok (Table.ofList [("x", "1".toUTF8.toList)])⟩,
    ⟨.inl (.store (Table.ofList [("x", "1".toUTF8.toList)])), .ok ()⟩,
    ⟨.inl (.publish (.chunkStored "prices" "top" 1)), ()⟩, ⟨.inl .markReady, ()⟩,
    ⟨.inl (.publish (.tierCompleted "prices" "top" 1)), ()⟩, ⟨.inl (.finish "top" 0 true), ()⟩]

/-- The identifiers of the second source make a success of a refresh whose own ranks yield nothing. -/
theorem not_zero_yield_rescued :
    Runs (run pairwise topTwo 0) rescued (.ok 1) ∧ topTwo.slice? ["a", "b"] = some ["a", "b"] ∧
      mainIds rescued = ["a", "b"] ∧ Barren (mainPart rescued) ∧
      ¬ ∀ h result, Runs (run pairwise topTwo 0) h result → mainIds h = ["a", "b"] →
        Barren (mainPart h) → (∀ e, result = .error e → e.isCancelled = false) →
          result = .error (.zeroYield "top" 1 2 2) ∧ ∀ e ∈ h, Unnoticed e.op := by
  have runs : Runs (run pairwise topTwo 0) rescued (.ok 1) :=
    .ask (.ask (.ask (.ask (.ask (.ask (.ask (.ask (.ask (.done _)))))))))
  refine ⟨runs, rfl, rfl, barren_opening, fun yields => ?_⟩
  cases (yields rescued _ runs rfl barren_opening nofun).1

end Refresh

end MarketFeed
