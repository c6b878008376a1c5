import Mathlib.Data.List.TakeWhile
import MarketFeed.Proofs.ChunkPlan.Limits
import MarketFeed.Proofs.Program.Histories
import MarketFeed.Proofs.Tier.Ranks
import MarketFeed.Refresh
/-!
Which identifiers a refresh asks for. Whatever is answered, the chunks asked for before the second
source are cut from the identifiers at the ranks of the tier, in their order, and nothing but the first
ranks is read for that. The tiers of an accepted list share the ranked list out among them.
-/

set_option autoImplicit false
set_option relaxedAutoImplicit false

namespace MarketFeed

open Program

namespace Refresh

def askedIds : Exchanged requests → List String
  | ⟨.inr (.chunk ids), _⟩ => ids
  | ⟨.inl _, _⟩ => []

def asksSecond : Exchanged requests → Bool
  | ⟨.inl (.ids .supplementary _), _⟩ => true
  | _ => false

/-- The part of a history before the second source is asked: the main fetch with what leads to it. -/
def mainPart (h : List (Exchanged requests)) : List (Exchanged requests) :=
  h.takeWhile fun e => !asksSecond e

def mainIds (h : List (Exchanged requests)) : List String := (mainPart h).flatMap askedIds

/-- An exchange with which a fetch ends early: a chunk that failed, or a pause that was cancelled. -/
def Fails : Exchanged requests → Prop
  | ⟨.inr (.chunk _), .error _⟩ => True
  | ⟨.inl (.pause _), Signal.cancelled⟩ => True
  | _ => False

def RankedBy (ranked : List String) : Exchanged requests → Prop
  | ⟨.inl (.ids .ranked limit), answer⟩ => answer = some ((Ranking.fixed ranked).top limit)
  | _ => True

/-- How many of the first ranks a refresh reads; zero stands for all. -/
def ranksRead (plan : Plan) (t : Tier) : Nat := if plan.tiered then t.idTo else 0

/-- `left` is what the main fetch has still to ask for of `whole`; once the second source is asked,
everything has been asked for. -/
structure Asking (whole left : List String) (h : List (Exchanged requests)) : Prop where
  ahead : (∀ e ∈ h, asksSecond e = false) → mainIds h ++ left = whole
  full : (∃ e ∈ h, asksSecond e = true) → mainIds h = whole

def Exhausts (whole : List String) (h : List (Exchanged requests)) : Prop :=
  ∃ left, Asking whole left h ∧ (left ≠ [] → ∃ e ∈ h, Fails e)

structure Proper (whole : List String) (h : List (Exchanged requests)) (op : requests.Op) : Prop where
  safe : op ≠ .inl .breakDown
  once : ∀ limit, op ≠ .inl (.ids .ranked limit)
  first : mainIds h <+: whole

section Asking

variable {whole left : List String} {h : List (Exchanged requests)}

private theorem open_or_full (h : List (Exchanged requests)) :
    (∀ e ∈ h, asksSecond e = false) ∨ ∃ e ∈ h, asksSecond e = true := by
  by_cases full : ∃ e ∈ h, asksSecond e = true
  · exact .inr full
  · exact .inl (by simpa using full)

theorem mainPart_of_ahead (ahead : ∀ e ∈ h, asksSecond e = false) : mainPart h = h := by
  rw [mainPart, List.takeWhile_eq_self_iff]
  simpa using ahead

private theorem mainIds_append_of_ahead (ahead : ∀ e ∈ h, asksSecond e = false)
    (k : List (Exchanged requests)) : mainIds (h ++ k) = mainIds h ++ mainIds k := by
  have all : ∀ e ∈ h, (!asksSecond e) = true := by simpa using ahead
  rw [mainIds, mainIds, mainPart_of_ahead ahead, mainPart, List.takeWhile_append_of_pos all,
    List.flatMap_append]
  rfl

private theorem mainIds_append_of_full (full : ∃ e ∈ h, asksSecond e = true)
    (k : List (Exchanged requests)) : mainIds (h ++ k) = mainIds h := by
  obtain ⟨e, member, second⟩ := full
  have cut : ¬ (h.takeWhile fun e => !asksSecond e).length = h.length := by
    intro same
    have whole := (List.takeWhile_prefix _).eq_of_length same
    have first := List.takeWhile_eq_self_iff.mp whole e member
    simp [second] at first
  rw [mainIds, mainIds, mainPart, mainPart, List.takeWhile_append, if_neg cut]

theorem Asking.first (asking : Asking whole left h) : mainIds h <+: whole := by
  rcases open_or_full h with ahead | full
  · exact ⟨left, asking.ahead ahead⟩
  · exact ⟨[], (List.append_nil _).trans (asking.full full)⟩

private theorem Asking.append {e : Exchanged requests} (first : asksSecond e = false)
    (asking : Asking whole (askedIds e ++ left) h) : Asking whole left (h ++ [e]) := by
  have alone : mainIds [e] = askedIds e := by simp [mainIds, mainPart, first]
  constructor
  · intro ahead
    have before : ∀ e ∈ h, asksSecond e = false :=
      fun e' member => ahead e' (List.mem_append_left _ member)
    rw [mainIds_append_of_ahead before, alone, List.append_assoc]
    exact asking.ahead before
  · intro full
    have before : ∃ e ∈ h, asksSecond e = true := by simpa [first] using full
    rw [mainIds_append_of_full before]
    exact asking.full before

private theorem Asking.askSecond (asking : Asking whole [] h) (limit : Nat)
    (answer : Op.Answer (.ids .supplementary limit)) (left' : List String) :
    Asking whole left' (h ++ [⟨.inl (.ids .supplementary limit), answer⟩]) := by
  have full : ∃ e ∈ h ++ [⟨.inl (.ids .supplementary limit), answer⟩], asksSecond e = true :=
    ⟨⟨.inl (.ids .supplementary limit), answer⟩, by simp, rfl⟩
  constructor
  · intro ahead
    obtain ⟨e, member, second⟩ := full
    rw [ahead e member] at second
    cases second
  · intro _
    rcases open_or_full h with ahead | full
    · have said := asking.ahead ahead
      rw [List.append_nil] at said
      rw [mainIds_append_of_ahead ahead, said]
      exact List.append_nil _
    · rw [mainIds_append_of_full full]
      exact asking.full full

private theorem Exhausts.append {e : Exchanged requests} (exhausts : Exhausts whole h)
    (first : asksSecond e = false) (other : askedIds e = []) : Exhausts whole (h ++ [e]) := by
  obtain ⟨left, asking, failed⟩ := exhausts
  refine ⟨left, Asking.append first ?_, fun spare => ?_⟩
  · rw [other, List.nil_append]
    exact asking
  · obtain ⟨e', member, fails⟩ := failed spare
    exact ⟨e', List.mem_append_left _ member, fails⟩

private theorem Exhausts.eq (exhausts : Exhausts whole h) (fine : ∀ e ∈ mainPart h, ¬ Fails e) :
    mainIds h = whole := by
  obtain ⟨left, asking, failed⟩ := exhausts
  rcases open_or_full h with ahead | full
  · have none_left : left = [] := by
      by_contra spare
      obtain ⟨e, member, fails⟩ := failed spare
      rw [mainPart_of_ahead ahead] at fine
      exact fine e member fails
    rw [← asking.ahead ahead, none_left, List.append_nil]
  · exact asking.full full

/-! ### The refresh once the ranks are known -/

private def Ordinary : requests.Op → Prop
  | .inl (.ids _ _) => False
  | .inl .breakDown => False
  | _ => True

private theorem Ordinary.asksSecond {op : requests.Op} (ordinary : Ordinary op)
    (answer : requests.Answer op) : asksSecond ⟨op, answer⟩ = false := by
  match op with
  | .inl (.ids _ _) => exact ordinary.elim
  | .inl (.pause _) | .inl (.store _) | .inl (.publish _) | .inl .markReady
  | .inl (.finish _ _ _) | .inl .breakDown | .inr _ => rfl

private theorem Asking.proper {op : requests.Op} (asking : Asking whole left h)
    (ordinary : Ordinary op) : Proper whole h op where
  safe := by
    rintro rfl
    exact ordinary
  once := by
    rintro limit rfl
    exact ordinary
  first := asking.first

private theorem obeys_aside (op : requests.Op) (ordinary : Ordinary op)
    (aside : ∀ answer, askedIds ⟨op, answer⟩ = []) (asking : Asking whole left h) :
    Obeys (Proper whole) (fun k r => k = h ++ [⟨op, r⟩] ∧ Asking whole left k) h
      (Program.call (S := requests) op) := by
  refine obeys_call (asking.proper ordinary) fun r => ⟨rfl, ?_⟩
  apply Asking.append (ordinary.asksSecond r)
  rw [aside r, List.nil_append]
  exact asking

private theorem asking_deliver (feed tier : String) (chunk : Payloads)
    (asking : Asking whole left h) :
    Obeys (Proper whole) (fun k _ => Asking whole left k) h (deliver feed tier chunk) := by
  unfold deliver
  split
  · exact obeys_pure asking
  · have stores := obeys_aside (.inl (.store chunk)) trivial (fun _ => rfl) asking
    refine stores.bind ?_
    rintro k (e | u) ⟨-, asking⟩
    · exact obeys_pure asking
    · have announces := obeys_aside (.inl (.publish (.chunkStored feed tier chunk.size))) trivial
        (fun _ => rfl) asking
      exact announces.mono fun k _ said => said.2

private def Fetches (whole : List String) {ε : Type} (h : List (Exchanged requests))
    (r : Except ε Payloads) : Prop :=
  ∃ left, Asking whole left h ∧ (left ≠ [] → ∃ e ∈ h, Fails e) ∧ ∀ d, r = .ok d → left = []

private theorem Asking.failed {ε : Type} {k : List (Exchanged requests)} {e : Exchanged requests}
    (asking : Asking whole left k) (member : e ∈ k) (fails : Fails e) (error : ε) :
    Fetches whole k (.error error) := by
  refine ⟨left, asking, fun _ => ⟨e, member, fails⟩, ?_⟩
  intro d ok
  cases ok

private theorem asking_fetchFrom (feed tier : String) (delay : Duration) (total index : Nat)
    (chunks : List (List String)) (data : Payloads) (asking : Asking whole chunks.flatten h) :
    Obeys (Proper whole) (Fetches whole) h
      ((ChunkFetch.fetchFrom delay total index chunks data).interpret (carryOut feed tier)) := by
  induction chunks generalizing h index data with
  | nil => exact obeys_pure ⟨[], asking, fun spare => absurd rfl spare, fun _ _ => rfl⟩
  | cons chunk chunks ih =>
    have prepares : Obeys (Proper whole)
        (fun k r => Asking whole (chunk ++ chunks.flatten) k ∧
          (r = .cancelled → ∃ e ∈ k, Fails e)) h
        ((ChunkFetch.prepare delay index).interpret (carryOut feed tier)) := by
      unfold ChunkFetch.prepare
      split
      · refine obeys_pure ⟨asking, ?_⟩
        intro cancelled
        cases cancelled
      · have pauses := obeys_aside (.inl (.pause delay)) trivial (fun _ => rfl) asking
        have carried : (ChunkFetch.pause delay).interpret (carryOut feed tier) =
            Program.call (S := requests) (.inl (.pause delay)) :=
          interpret_call (S := ChunkFetch.requests) (carryOut feed tier) (.inl (.pause delay))
        rw [carried]
        refine pauses.mono ?_
        rintro k r ⟨rfl, asking⟩
        refine ⟨asking, ?_⟩
        rintro rfl
        exact ⟨_, List.mem_append_right _ List.mem_cons_self, trivial⟩
    rw [ChunkFetch.fetchFrom, bind_eq, interpret_bind]
    refine prepares.bind ?_
    rintro k (_ | _) ⟨asking, stopped⟩
    · have fetches : Obeys (Proper whole)
          (fun k' r => k' = k ++ [⟨.inr (.chunk chunk), r⟩] ∧ Asking whole chunks.flatten k') k
          ((ChunkFetch.fetch chunk).interpret (carryOut feed tier)) :=
        obeys_call (S := requests) (asking.proper trivial) fun r => ⟨rfl, Asking.append rfl asking⟩
      show Obeys _ _ _ (((ChunkFetch.fetch chunk).bind _).interpret (carryOut feed tier))
      rw [interpret_bind]
      refine fetches.bind ?_
      rintro k (e | arrived) ⟨rfl, asking⟩
      · exact asking.failed (List.mem_append_right _ List.mem_cons_self) trivial _
      · have carried : (ChunkFetch.deliver arrived).interpret (carryOut feed tier) =
            deliver feed tier arrived :=
          interpret_call (S := ChunkFetch.requests) (carryOut feed tier) (.inl (.deliver arrived))
        show Obeys _ _ _ (((ChunkFetch.deliver arrived).bind _).interpret (carryOut feed tier))
        rw [interpret_bind, carried]
        refine (asking_deliver feed tier arrived asking).bind ?_
        intro k _ asking
        exact ih (index + 1) (data.union arrived) asking
    · obtain ⟨e, member, fails⟩ := stopped rfl
      exact asking.failed member fails _

private theorem asking_fetchAll (plan : Plan) (tier : String) (ids : List String)
    (asking : Asking whole ids h) :
    Obeys (Proper whole) (Fetches whole) h (fetchAll plan tier ids) := by
  have cut : (ChunkPlan.plan ids plan.mode plan.chunks).flatten = ids :=
    ChunkPlan.flatten_plan ids plan.mode plan.chunks
  rw [← cut] at asking
  refine (asking_fetchFrom plan.feed tier _ _ 0 _ ∅ asking).bind ?_
  rintro k r ⟨left, asking, failed, ends⟩
  refine obeys_pure ⟨left, asking, failed, ?_⟩
  intro d ok
  cases r with
  | error e => cases ok
  | ok d => exact ends d rfl

private theorem asking_withExtra (plan : Plan) (t : Tier) (fetched : Payloads)
    (asking : Asking whole [] h) :
    Obeys (Proper whole) (fun k _ => Exhausts whole k) h (withExtra plan t fetched) := by
  have done : ∀ {k : List (Exchanged requests)}, Asking whole [] k → Exhausts whole k :=
    fun asking => ⟨[], asking, fun spare => absurd rfl spare⟩
  have extra : Obeys (Proper whole) (fun k _ => Exhausts whole k) h (fetchExtra plan t.name fetched) := by
    have allowed : Proper whole h (.inl (.ids .supplementary 0)) :=
      ⟨nofun, nofun, asking.first⟩
    refine (obeys_asked (S := requests) (.inl (.ids .supplementary 0)) allowed).bind ?_
    rintro k answer rfl
    match answer with
    | none => exact obeys_pure (done (asking.askSecond 0 _ []))
    | some (.error e) => exact obeys_pure (done (asking.askSecond 0 _ []))
    | some (.ok more) =>
      have closed := asking.askSecond 0 (some (.ok more))
      refine obeys_ite (fun _ => obeys_pure (done (closed []))) fun _ => ?_
      refine (asking_fetchAll plan t.name _ (closed (extraIds fetched more))).mono ?_
      rintro k r ⟨left, asking, failed, -⟩
      exact ⟨left, asking, failed⟩
  unfold withExtra
  split
  · refine extra.bind ?_
    rintro k (e | d) exhausts
    · exact obeys_ite (fun _ => obeys_pure exhausts) fun _ => obeys_pure exhausts
    · exact obeys_pure exhausts
  · exact obeys_pure (done asking)

private theorem obeys_ending (op : requests.Op) (ordinary : Ordinary op)
    (aside : ∀ answer, askedIds ⟨op, answer⟩ = []) (exhausts : Exhausts whole h) :
    Obeys (Proper whole) (fun k _ => Exhausts whole k) h (Program.call (S := requests) op) := by
  obtain ⟨left, asking, failed⟩ := exhausts
  refine obeys_call (asking.proper ordinary) fun r => ?_
  exact Exhausts.append ⟨left, asking, failed⟩ (ordinary.asksSecond r) (aside r)

private theorem asking_conclude (plan : Plan) (t : Tier) (ranks requested : Nat) (data : Payloads)
    (exhausts : Exhausts whole h) :
    Obeys (Proper whole) (fun k _ => Exhausts whole k) h (conclude plan t ranks requested data) := by
  refine obeys_ite (fun _ => obeys_pure exhausts) fun _ => ?_
  refine (obeys_ending (.inl .markReady) trivial (fun _ => rfl) exhausts).bind ?_
  intro k _ exhausts
  refine (obeys_ending (.inl (.publish _)) trivial (fun _ => rfl) exhausts).bind ?_
  intro k _ exhausts
  exact obeys_pure exhausts

private theorem asking_slice (plan : Plan) (t : Tier) (ranks : Nat) (asking : Asking whole whole h) :
    Obeys (Proper whole) (fun k _ => Exhausts whole k) h (do
      if whole.isEmpty then return .ok 0
      else
        match ← fetchAll plan t.name whole with
        | .error e => return .error e
        | .ok fetched =>
          match ← withExtra plan t fetched with
          | .error e => return .error e
          | .ok data => conclude plan t ranks whole.length data) := by
  refine obeys_ite (fun empty => ?_) fun _ => ?_
  · refine obeys_pure ⟨whole, asking, ?_⟩
    intro spare
    exact absurd (List.isEmpty_iff.mp empty) spare
  refine (asking_fetchAll plan t.name whole asking).bind ?_
  rintro k (e | fetched) ⟨left, asking, failed, ends⟩
  · exact obeys_pure ⟨left, asking, failed⟩
  have none_left := ends fetched rfl
  subst none_left
  refine (asking_withExtra plan t fetched asking).bind ?_
  rintro k (e | data) exhausts
  · exact obeys_pure exhausts
  · exact asking_conclude plan t ranks whole.length data exhausts

private theorem obeys_answered (plan : Plan) {t : Tier} (started : Instant) {given : List String}
    (cut : t.slice? given = some whole) (limit : Nat) :
    ∃ next, run plan t started = .ask (.inl (.ids .ranked (ranksRead plan t))) next ∧
      Obeys (Proper whole) (fun k _ => Exhausts whole k)
        [⟨.inl (.ids .ranked limit), some (.ok given)⟩] (next (some (.ok given))) := by
  refine ⟨_, rfl, ?_⟩
  have asking : Asking whole whole [⟨.inl (.ids .ranked limit), some (.ok given)⟩] :=
    ⟨fun _ => rfl, fun ⟨e, member, second⟩ => by
      rw [List.mem_singleton.mp member] at second
      cases second⟩
  dsimp only [Program.bind]
  rw [cut]
  refine (asking_slice plan t given.length asking).bind ?_
  intro k r exhausts
  refine (obeys_ending (.inl (.finish t.name started (succeeded r))) trivial (fun _ => rfl)
    exhausts).bind ?_
  intro k _ exhausts
  exact obeys_pure exhausts

end Asking

/-- Keeping to the ranks of a tier: the refresh asks for the ranks once, first of all and for no more
than it reads, the main fetch asks for the identifiers at the ranks in their order, for all of them
unless something fails, and it never breaks down. -/
structure KeepsTo (plan : Plan) (t : Tier) (ranked : List String) (h : List (Exchanged requests))
    (q : Program requests (Except RefreshError Nat)) : Prop where
  safe : ∀ next, q ≠ .ask (.inl .breakDown) next
  reads : ∀ limit next, q = .ask (.inl (.ids .ranked limit)) next → h = [] ∧ limit = ranksRead plan t
  first : mainIds h <+: t.idsOf ranked
  whole : ∀ r, q = .done r → (∀ e ∈ mainPart h, ¬ Fails e) → mainIds h = t.idsOf ranked

section Tier

variable {t : Tier} {h : List (Exchanged requests)}

theorem exists_given (range : t.IsRange) (plan : Plan) (ranked : List String) :
    ∃ given, (Ranking.fixed ranked).top (ranksRead plan t) = .ok given ∧
      t.slice? given = some (t.idsOf ranked) := by
  refine ⟨_, rfl, ?_⟩
  rw [Tier.slice?_eq range]
  have := range.1
  have := range.2
  by_cases tiered : plan.tiered
  · have some_rank : t.idTo ≠ 0 := by omega
    rw [ranksRead, if_pos tiered, if_neg some_rank, Tier.idsOf_take]
  · rw [ranksRead, if_neg tiered, if_pos rfl]

theorem keepsTo_of_after (range : t.IsRange) {plan : Plan} {started : Instant}
    {ranked : List String} {q : Program requests (Except RefreshError Nat)}
    (after : After (run plan t started) h q) (answered : ∀ e ∈ h, RankedBy ranked e) :
    KeepsTo plan t ranked h q := by
  obtain ⟨given, top, cut⟩ := exists_given range plan ranked
  obtain ⟨next, asks, obeys⟩ := obeys_answered plan started cut (ranksRead plan t)
  rw [asks] at after
  rcases after_ask after with ⟨rfl, rfl⟩ | ⟨r, k, rfl, later⟩
  · exact ⟨nofun, fun limit next same => by cases same; exact ⟨rfl, rfl⟩, List.nil_prefix, nofun⟩
  have told : r = some (.ok given) := by
    have told := answered _ List.mem_cons_self
    rw [← top]
    exact told
  subst told
  have left := obeys.after later
  cases q with
  | done r =>
    obtain ⟨spare, asking, failed⟩ := left
    exact ⟨nofun, nofun, asking.first, fun _ _ fine => Exhausts.eq ⟨spare, asking, failed⟩ fine⟩
  | ask op next =>
    have proper := left.1
    refine ⟨?_, ?_, proper.first, nofun⟩
    · rintro next' same
      cases same
      exact proper.safe rfl
    · rintro limit next' same
      cases same
      exact absurd rfl (proper.once limit)

private theorem runs_beyond_iff (range : t.IsRange) (plan : Plan) (started : Instant)
    {ranked : List String} (beyond : ranked.length < t.idFrom) {r : Except RefreshError Nat} :
    (Runs (run plan t started) h r ∧ ∀ e ∈ h, RankedBy ranked e) ↔
      h = [⟨.inl (.ids .ranked (ranksRead plan t)),
          some ((Ranking.fixed ranked).top (ranksRead plan t))⟩,
        ⟨.inl (.finish t.name started true), ()⟩] ∧ r = .ok 0 := by
  obtain ⟨given, top, cut⟩ := exists_given range plan ranked
  rw [(Tier.idsOf_eq_nil_iff range ranked).mpr beyond] at cut
  obtain ⟨next, asks, ends⟩ : ∃ next, run plan t started =
      .ask (.inl (.ids .ranked (ranksRead plan t))) next ∧
      next (some (.ok given)) = .ask (.inl (.finish t.name started true)) fun _ => .done (.ok 0) := by
    refine ⟨_, rfl, ?_⟩
    dsimp only [Program.bind]
    rw [cut]
    rfl
  rw [asks, top]
  constructor
  · rintro ⟨runs, answered⟩
    obtain ⟨answer, k, rfl, later⟩ := runs_call_bind (S := requests) _ (f := next) runs
    have told : answer = some (.ok given) := by
      have told := answered _ List.mem_cons_self
      rw [← top]
      exact told
    subst told
    rw [ends] at later
    cases later with
    | ask finished =>
      cases finished
      exact ⟨rfl, rfl⟩
  · rintro ⟨rfl, rfl⟩
    constructor
    · apply Runs.ask
      rw [ends]
      exact .ask (.done _)
    · intro e member
      rcases List.mem_cons.mp member with rfl | member
      · exact congrArg some top.symm
      · rw [List.mem_singleton.mp member]
        trivial

end Tier

/-- The tiers of an accepted list share a fixed ranking out among them: the main fetch of each asks for
the identifiers at its ranks in the order of the ranking, each covered rank of the list belongs to
exactly one tier, and a tier beyond the list asks for nothing and ends well. -/
theorem tiers_partition_ranking {tiers : List Tier} (accepted : Tier.validate tiers = none)
    (ranked : List String) :
    (∀ plan, ∀ t ∈ tiers, ∀ started h q, After (run plan t started) h q →
      (∀ e ∈ h, RankedBy ranked e) → KeepsTo plan t ranked h q) ∧
    (∀ t ∈ tiers, (t.idsOf ranked).map some =
      (t.ranks ranked.length).map fun rank => ranked[rank - 1]?) ∧
    (∀ rank, (tiers.filter fun t => rank ∈ t.ranks ranked.length).length =
      if rank ≤ ranked.length ∧ ∃ t ∈ tiers, t.covers rank then 1 else 0) ∧
    ∀ plan, ∀ t ∈ tiers, ranked.length < t.idFrom → ∀ started h r,
      (Runs (run plan t started) h r ∧ ∀ e ∈ h, RankedBy ranked e) ↔
        h = [⟨.inl (.ids .ranked (ranksRead plan t)),
            some ((Ranking.fixed ranked).top (ranksRead plan t))⟩,
          ⟨.inl (.finish t.name started true), ()⟩] ∧ r = .ok 0 := by
  have ranges := Tier.isRange_of_validate accepted
  refine ⟨?_, ?_, ?_, ?_⟩
  · intro plan t member started h q after answered
    exact keepsTo_of_after (ranges t member) after answered
  · intro t member
    exact Tier.map_some_idsOf (ranges t member) ranked
  · intro rank
    exact Tier.length_filter_ranks (Tier.apart_of_validate accepted) ranked.length rank
  · intro plan t member beyond started h r
    exact runs_beyond_iff (ranges t member) plan started beyond

def leaders : Tier := ⟨"leaders", 1, 2, Duration.ofSeconds 60, false⟩

def followers : Tier := ⟨"followers", 4, 9, Duration.ofSeconds 600, false⟩

theorem validate_followers_leaders : Tier.validate [followers, leaders] = none := by
  have order : Tier.sorted [followers, leaders] = [leaders, followers] := by
    simp [Tier.sorted, List.mergeSort, leaders, followers]
  rw [Tier.validate, order]
  decide +kernel

def followed : List (Exchanged requests) :=
  [⟨.inl (.ids .ranked 9), some (.ok ["a", "b", "c", "d", "e"])⟩,
    ⟨.inr (.chunk ["d"]), .ok ∅⟩, ⟨.inl (.pause (Duration.ofMillis 1000)), Signal.elapsed⟩,
    ⟨.inr (.chunk ["e"]), .ok ∅⟩, ⟨.inl (.finish "followers" 0 false), ()⟩]

theorem tiers_partition_ranking_followers :
    Tier.validate [followers, leaders] = none ∧
    Runs (run ⟨"coins", true, .single, {}⟩ followers 0) followed
      (.error (.zeroYield "followers" 4 5 2)) ∧
    (∀ e ∈ followed, RankedBy ["a", "b", "c", "d", "e"] e) ∧ mainIds followed = ["d", "e"] ∧
    KeepsTo ⟨"coins", true, .single, {}⟩ followers ["a", "b", "c", "d", "e"] followed
      (.done (.error (.zeroYield "followers" 4 5 2))) ∧
    (followers.idsOf ["a", "b", "c", "d", "e"]).map some = [some "d", some "e"] ∧
    ([followers, leaders].filter fun t => 3 ∈ t.ranks 5).length = 0 := by
  have runs : Runs (run ⟨"coins", true, .single, {}⟩ followers 0) followed
      (.error (.zeroYield "followers" 4 5 2)) :=
    .ask (.ask (.ask (.ask (.ask (.done _)))))
  have answered : ∀ e ∈ followed, RankedBy ["a", "b", "c", "d", "e"] e := by
    refine List.forall_mem_cons.mpr ⟨rfl, ?_⟩
    simp [RankedBy]
  obtain ⟨keeps, stand, shared, -⟩ :=
    tiers_partition_ranking validate_followers_leaders ["a", "b", "c", "d", "e"]
  exact ⟨validate_followers_leaders, runs, answered, rfl,
    keeps _ followers (by simp) 0 _ _ (runs_iff_after.mp runs) answered,
    stand followers (by simp), shared 3⟩

end Refresh

end MarketFeed
