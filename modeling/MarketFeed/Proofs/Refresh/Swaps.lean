import MarketFeed.Proofs.Refresh.Yield
import MarketFeed.Proofs.Simulation.Interleaving
/-!
Providers of identifiers that are swapped while a refresh runs. What answers a refresh is a strategy, which
may go by all that was asked before; the providers in place at the moment answer the questions for
identifiers. The main fetch goes by the provider of ranks with which the refresh has begun. The second
source is looked for only once the main fetch is over, so a refresh goes by the provider that is in place
there by then.
-/

set_option autoImplicit false
set_option relaxedAutoImplicit false

namespace MarketFeed

namespace Program

/-! ### Strategies -/

/-- What answers requests: an answer, if there is one, may depend on all that was exchanged before. -/
abbrev Strategy (S : Signature) := List (Exchanged S) → (op : S.Op) → Option (S.Answer op)

def Strategy.after {S : Signature} (σ : Strategy S) (e : Exchanged S) : Strategy S :=
  fun past => σ (e :: past)

def Strategy.Answers {S : Signature} (σ : Strategy S) : List (Exchanged S) → Prop
  | [] => True
  | e :: h => σ [] e.op = some e.answer ∧ (σ.after e).Answers h

section Strategies

variable {S : Signature} {α : Type} {σ σ' : Strategy S} {p : Program S α}
  {h k : List (Exchanged S)} {a b : α}

theorem Strategy.answers_iff : σ.Answers h ↔
    ∀ past e rest, h = past ++ e :: rest → σ past e.op = some e.answer := by
  induction h generalizing σ with
  | nil => exact iff_of_true trivial fun past e rest same => (List.append_ne_nil_of_right_ne_nil past
      (List.cons_ne_nil e rest) same.symm).elim
  | cons first h ih =>
    rw [Answers, ih]
    constructor
    · rintro ⟨told, later⟩ past e rest same
      cases past with
      | nil =>
        cases same
        exact told
      | cons _ past =>
        cases same
        exact later past e rest rfl
    · intro told
      exact ⟨told [] first h rfl, fun past e rest same => told (first :: past) e rest (same ▸ rfl)⟩

theorem Strategy.Answers.congr (answers : σ.Answers h)
    (agree : ∀ past e rest, h = past ++ e :: rest → σ' past e.op = σ past e.op) : σ'.Answers h :=
  answers_iff.mpr fun past e rest split =>
    (agree past e rest split).trans (answers_iff.mp answers past e rest split)

theorem runs_result_unique (runs : Runs p h a) (runs' : Runs p h b) : a = b := by
  induction runs with
  | done a =>
    cases runs'
    rfl
  | ask _ ih =>
    cases runs' with
    | ask rest => exact ih rest

/-- Where two strategies agree on all requests of some kind, two runs are the same up to the first request
of another kind. -/
theorem runs_takeWhile_eq {P : Exchanged S → Bool} (kind : ∀ op r r', P ⟨op, r⟩ = P ⟨op, r'⟩)
    (runs : Runs p h a) (answers : σ.Answers h) (runs' : Runs p k b) (answers' : σ'.Answers k)
    (agree : ∀ past e rest, h = past ++ e :: rest → P e = true → σ' past e.op = σ past e.op) :
    k.takeWhile P = h.takeWhile P := by
  induction runs generalizing σ σ' k with
  | done a =>
    cases runs'
    rfl
  | @ask op next r history a rest ih =>
    cases runs' with
    | @ask _ _ r' k _ rest' =>
      -- both strategies go on by the exchange only if it is one on which they agree
      by_cases same : P ⟨op, r⟩ = true
      · have told : some r' = some r :=
          answers'.1.symm.trans ((agree [] _ history rfl same).trans answers.1)
        cases told
        rw [List.takeWhile_cons_of_pos same, List.takeWhile_cons_of_pos same]
        refine congrArg _ (ih answers.2 rest' answers'.2 fun past e rest split => ?_)
        exact agree (_ :: past) e rest (split ▸ rfl)
      · rw [List.takeWhile_cons_of_neg same, List.takeWhile_cons_of_neg]
        rwa [kind op r' r]

theorem runs_answered_unique (runs : Runs p h a) (answers : σ.Answers h) (runs' : Runs p k b)
    (answers' : σ.Answers k) : k = h ∧ b = a := by
  have whole : ∀ l : List (Exchanged S), l.takeWhile (fun _ => true) = l := fun l =>
    List.takeWhile_eq_self_iff.mpr fun _ _ => rfl
  have same : k = h := by
    rw [← whole h, ← whole k]
    exact runs_takeWhile_eq (fun _ _ _ => rfl) runs answers runs' answers' fun _ _ _ _ _ => rfl
  subst same
  exact ⟨rfl, runs_result_unique runs' runs⟩

end Strategies

end Program

namespace Refresh

open Program

/-! ### Providers in place -/

abbrev Provider := Nat → Except RefreshError (List String)

/-- The providers in place. -/
structure Slots where
  ranked : Option Provider
  supplementary : Option Provider

def Slots.provider (s : Slots) : Source → Option Provider
  | .ranked => s.ranked
  | .supplementary => s.supplementary

def Slots.tellsSecond (s : Slots) : Option (Except RefreshError (List String)) :=
  s.supplementary.map fun provider => provider 0

/-- What puts another provider in place; the second source may also be taken away. -/
inductive Swap where
  | ranked (provider : Provider)
  | supplementary (provider : Option Provider)

def Slots.swap (s : Slots) : Swap → Slots
  | .ranked provider => { s with ranked := some provider }
  | .supplementary provider => { s with supplementary := provider }

/-- The providers in place after some exchanges of a refresh that has begun with `first`; `swaps n` are
made once there were `n + 1` exchanges and before the next. -/
def Slots.during (first : Slots) (swaps : Nat → List Swap) : Nat → Slots
  | 0 => first
  | n + 1 => (swaps n).foldl Slots.swap (first.during swaps n)

/-- The providers in place tell of identifiers; anything else is answered by the world around. -/
def consulting (world : Strategy requests) (slots : Nat → Slots) : Strategy requests
  | past, .inl (.ids source limit) =>
    some (α := Op.Answer (.ids source limit))
      (((slots past.length).provider source).map fun provider => provider limit)
  | past, op => world past op

theorem consulting_other {world : Strategy requests} {slots : Nat → Slots} {op : requests.Op}
    (past : List (Exchanged requests)) (other : ∀ source limit, op ≠ .inl (.ids source limit)) :
    consulting world slots past op = world past op := by
  match op with
  | .inl (.ids source limit) => exact absurd rfl (other source limit)
  | .inl (.pause _) | .inl (.store _) | .inl (.publish _) | .inl .markReady | .inl (.finish _ _ _)
  | .inl .breakDown | .inr _ => rfl

def noSwaps : Nat → List Swap := fun _ => []

@[simp] theorem Slots.during_noSwaps (first : Slots) (n : Nat) :
    first.during noSwaps n = first := by
  induction n with
  | zero => rfl
  | succ n ih => exact ih

theorem Slots.foldl_swap_supplementary {swaps : List Swap} (s : Slots)
    (left : ∀ provider, .supplementary provider ∉ swaps) :
    (swaps.foldl Slots.swap s).supplementary = s.supplementary := by
  induction swaps generalizing s with
  | nil => rfl
  | cons swap swaps ih =>
    have later := ih (s.swap swap) fun provider here => left provider (List.mem_cons_of_mem _ here)
    cases swap with
    | ranked provider => exact later
    | supplementary provider => exact absurd List.mem_cons_self (left provider)

theorem Slots.during_supplementary {first : Slots} {swaps : Nat → List Swap} {n : Nat}
    (left : ∀ m < n, ∀ provider, .supplementary provider ∉ swaps m) :
    (first.during swaps n).supplementary = first.supplementary := by
  induction n with
  | zero => rfl
  | succ n ih =>
    have before := ih fun m lt => left m (Nat.lt_succ_of_lt lt)
    exact (Slots.foldl_swap_supplementary _ (left n (Nat.lt_succ_self n))).trans before

end Refresh

def Simulation.FeedState.slots (f : FeedState) : Refresh.Slots :=
  ⟨f.ranked.map Ranking.top, f.supplementary.map Ranking.top⟩

theorem Simulation.FeedState.consulting_slots (f : FeedState) {slots : Nat → Refresh.Slots}
    {past : List (Program.Exchanged Refresh.requests)} (inPlace : slots past.length = f.slots)
    (world : Program.Strategy Refresh.requests) (now : Instant) (cancelled : Bool)
    (source : Refresh.Source) (limit : Nat) :
    Refresh.consulting world slots past (.inl (.ids source limit)) =
      (startStep now cancelled (.ids source limit) f).1.answer? := by
  have told : ((slots past.length).provider source).map (fun provider => provider limit) =
      (f.source source).map fun r => r.top limit := by
    rw [inPlace]
    cases source <;> exact Option.map_map ..
  exact congrArg some told

namespace Refresh

open Program

/-! ### Questions for identifiers -/

def question? : Exchanged requests → Option (Source × Nat)
  | ⟨.inl (.ids source limit), _⟩ => some (source, limit)
  | _ => none

def questions (h : List (Exchanged requests)) : List (Source × Nat) := h.filterMap question?

section Questions

variable {plan : Plan} {t : Tier} {started : Instant} {h past rest : List (Exchanged requests)}

theorem question?_eq_none {e : Exchanged requests}
    (other : ∀ source limit, e.op ≠ .inl (.ids source limit)) : question? e = none := by
  obtain ⟨op, answer⟩ := e
  match op with
  | .inl (.ids source limit) => exact absurd rfl (other source limit)
  | .inl (.pause _) | .inl (.store _) | .inl (.publish _) | .inl .markReady | .inl (.finish _ _ _)
  | .inl .breakDown | .inr _ => rfl

theorem asksSecond_iff {e : Exchanged requests} :
    asksSecond e = true ↔ ∃ limit, e.op = .inl (.ids .supplementary limit) := by
  obtain ⟨op, answer⟩ := e
  match op with
  | .inl (.ids .supplementary limit) => exact iff_of_true rfl ⟨limit, rfl⟩
  | .inl (.ids .ranked _) | .inl (.pause _) | .inl (.store _) | .inl (.publish _) | .inl .markReady
  | .inl (.finish _ _ _) | .inl .breakDown | .inr _ =>
    refine iff_of_false Bool.false_ne_true ?_
    rintro ⟨limit, same⟩
    cases same

theorem asksSecond_eq_false {e : Exchanged requests} (other : question? e = none) :
    asksSecond e = false := by
  rw [Bool.eq_false_iff]
  intro second
  obtain ⟨op, answer⟩ := e
  obtain ⟨limit, rfl⟩ := asksSecond_iff.mp second
  cases other

theorem questions_append (h k : List (Exchanged requests)) :
    questions (h ++ k) = questions h ++ questions k := List.filterMap_append

theorem questions_fetching (fetching : ∀ e ∈ h, Fetching e.op) : questions h = [] := by
  refine List.filterMap_eq_nil_iff.mpr fun e member => question?_eq_none ?_
  intro source limit same
  have asks := fetching e member
  rw [same] at asks
  exact asks

private theorem questions_pure {β : Type} {x y : β} (runs : Runs (pure x) h y) : questions h = [] := by
  rw [(runs_pure runs).1]
  rfl

private theorem questions_fetchExtra {fetched : Payloads} {r : Except RefreshError Payloads}
    (runs : Runs (fetchExtra plan t.name fetched) h r) : questions h = [(.supplementary, 0)] := by
  obtain ⟨answer, k, rfl, going⟩ :=
    runs_call_bind (S := requests) (.inl (.ids .supplementary 0)) runs
  have quiet : questions k = [] := by
    match answer with
    | none => exact questions_pure going
    | some (.error e) => exact questions_pure going
    | some (.ok more) =>
      change Runs (if (extraIds fetched more).isEmpty then pure (.ok ∅)
        else fetchAll plan t.name (extraIds fetched more)) k r at going
      split at going
      · exact questions_pure going
      · exact questions_fetching (runs_fetchAll going).1
  change (Source.supplementary, 0) :: questions k = _
  rw [quiet]

private theorem questions_withExtra {fetched : Payloads} {r : Except RefreshError Payloads}
    (runs : Runs (withExtra plan t fetched) h r) : questions h <+: [(.supplementary, 0)] := by
  rw [withExtra] at runs
  split at runs
  next =>
    obtain ⟨k, l, extra, rfl, fetching, ended⟩ := runs_bind runs
    have last : questions l = [] := by
      cases extra with
      | ok d => exact questions_pure ended
      | error e =>
        dsimp only at ended
        split at ended <;> exact questions_pure ended
    rw [questions_append, last, List.append_nil, questions_fetchExtra fetching]
  next =>
    rw [questions_pure runs]
    exact List.nil_prefix

private theorem questions_conclude {ranks requested : Nat} {data : Payloads}
    {r : Except RefreshError Nat} (runs : Runs (conclude plan t ranks requested data) h r) :
    questions h = [] := by
  rw [conclude] at runs
  split at runs
  · exact questions_pure runs
  · obtain ⟨_, k, rfl, announcing⟩ := runs_call_bind (S := requests) (.inl .markReady) runs
    obtain ⟨_, l, rfl, ended⟩ := runs_call_bind (S := requests) (.inl (.publish _)) announcing
    change questions l = []
    exact questions_pure ended

private theorem questions_slice {slice : List String} {ranks : Nat} {r : Except RefreshError Nat}
    (runs : Runs (do
      match ← fetchAll plan t.name slice with
      | .error e => return .error e
      | .ok fetched =>
        match ← withExtra plan t fetched with
        | .error e => return .error e
        | .ok data => conclude plan t ranks slice.length data) h r) :
    questions h <+: [(.supplementary, 0)] := by
  obtain ⟨m, k, main, rfl, fetching, further⟩ := runs_bind runs
  rw [questions_append, questions_fetching (runs_fetchAll fetching).1, List.nil_append]
  cases main with
  | error e =>
    rw [questions_pure further]
    exact List.nil_prefix
  | ok fetched =>
    obtain ⟨k, l, extended, rfl, extending, concluding⟩ := runs_bind further
    have last : questions l = [] := by
      cases extended with
      | error e => exact questions_pure concluding
      | ok data => exact questions_conclude concluding
    rw [questions_append, last, List.append_nil]
    exact questions_withExtra extending

theorem runs_questions {a : Except RefreshError Nat} (runs : Runs (run plan t started) h a) :
    ∃ answer more, h = ⟨.inl (.ids .ranked (ranksRead plan t)), answer⟩ :: more ∧
      questions more <+: [(.supplementary, 0)] := by
  obtain ⟨k, l, r, rfl, going, finishing⟩ := runs_bind runs
  obtain ⟨u, l, rfl, ended⟩ := runs_call_bind (S := requests) (.inl (.finish _ _ _)) finishing
  obtain ⟨answer, k, rfl, sliced⟩ := runs_call_bind (S := requests) (.inl (.ids .ranked _)) going
  refine ⟨answer, _, List.cons_append, ?_⟩
  have last : questions (⟨.inl (.finish t.name started (succeeded r)), u⟩ :: l) = [] := by
    change questions l = []
    exact questions_pure ended
  rw [questions_append, last, List.append_nil]
  have quiet (silent : questions k = []) : questions k <+: [(.supplementary, 0)] := by
    rw [silent]
    exact List.nil_prefix
  match answer with
  | none => exact quiet (questions_pure sliced)
  | some (.error e) => exact quiet (questions_pure sliced)
  | some (.ok ranked) =>
    dsimp only at sliced
    cases cut : t.slice? ranked with
    | none =>
      rw [cut] at sliced
      cases sliced with
      | @ask _ _ never => exact Empty.elim never
    | some slice =>
      rw [cut] at sliced
      dsimp only at sliced
      split at sliced
      · exact quiet (questions_pure sliced)
      · exact questions_slice sliced

/-- Where a refresh asks for identifiers: for the ranks before anything else, and for the second source
where its main fetch is over. -/
theorem asked_where {a : Except RefreshError Nat} (runs : Runs (run plan t started) h a)
    {source : Source} {limit : Nat} {answer : Op.Answer (.ids source limit)}
    (split : h = past ++ ⟨.inl (.ids source limit), answer⟩ :: rest) :
    source = .ranked ∧ past = [] ∨ source = .supplementary ∧ limit = 0 ∧ mainPart h = past := by
  obtain ⟨told, more, rfl, asked⟩ := runs_questions runs
  cases past with
  | nil =>
    cases split
    exact .inl ⟨rfl, rfl⟩
  | cons first past =>
    obtain ⟨rfl, rfl⟩ := List.cons.inj (split.trans List.cons_append)
    rw [questions_append] at asked
    change questions past ++ (source, limit) :: questions rest <+: _ at asked
    -- after the ranks there is one question at most, and it is this one
    have before : questions past = [] := by
      have short := asked.length_le
      rw [List.length_append, List.length_cons, List.length_singleton] at short
      exact List.length_eq_zero_iff.mp (by omega)
    rw [before, List.nil_append] at asked
    cases (List.cons_prefix_cons.mp asked).1
    have ahead : ∀ e ∈ past, asksSecond e = false := fun e member =>
      asksSecond_eq_false (List.filterMap_eq_nil_iff.mp before e member)
    refine .inr ⟨rfl, rfl, ?_⟩
    exact (mainPart_append (List.forall_mem_cons.mpr ⟨rfl, ahead⟩)).trans (List.append_nil _)

end Questions

/-! ### Two runs -/

section Swaps

variable {world : Strategy requests} {first first' : Slots} {swaps swaps' : Nat → List Swap}
  {plan : Plan} {t : Tier} {started : Instant} {h k : List (Exchanged requests)}
  {a b : Except RefreshError Nat}

theorem consulting_agree (runs : Runs (run plan t started) h a) (same : first'.ranked = first.ranked)
    {past rest : List (Exchanged requests)} {e : Exchanged requests} (split : h = past ++ e :: rest)
    (alike : asksSecond e = true → (first'.during swaps' (mainPart h).length).tellsSecond =
      (first.during swaps (mainPart h).length).tellsSecond) :
    consulting world (first'.during swaps') past e.op = consulting world (first.during swaps) past e.op := by
  obtain ⟨op, answer⟩ := e
  by_cases asks : ∃ source limit, op = .inl (.ids source limit)
  · obtain ⟨source, limit, rfl⟩ := asks
    rcases asked_where runs split with ⟨rfl, rfl⟩ | ⟨rfl, rfl, main⟩
    · change some (first'.ranked.map _) = some (first.ranked.map _)
      rw [same]
    · rw [main] at alike
      exact congrArg some (alike rfl)
  · have other : ∀ source limit, op ≠ .inl (.ids source limit) := fun source limit same =>
      asks ⟨source, limit, same⟩
    rw [consulting_other past other, consulting_other past other]

theorem second_told (runs : Runs (run plan t started) h a)
    (answered : (consulting world (first.during swaps)).Answers h) {e : Exchanged requests}
    (member : e ∈ h) (second : asksSecond e = true) :
    e = ⟨.inl (.ids .supplementary 0), (first.during swaps (mainPart h).length).tellsSecond⟩ := by
  obtain ⟨past, rest, split⟩ := List.append_of_mem member
  have told := Strategy.answers_iff.mp answered past e rest split
  obtain ⟨op, answer⟩ := e
  obtain ⟨limit, rfl⟩ := asksSecond_iff.mp second
  rcases asked_where runs split with ⟨ranked, -⟩ | ⟨-, rfl, main⟩
  · cases ranked
  · rw [main]
    exact congrArg (Exchanged.mk (S := requests) _) (Option.some.inj told).symm

theorem mainPart_eq (runs : Runs (run plan t started) h a)
    (answered : (consulting world (first.during swaps)).Answers h) (same : first'.ranked = first.ranked)
    (runs' : Runs (run plan t started) k b)
    (answered' : (consulting world (first'.during swaps')).Answers k) : mainPart k = mainPart h := by
  have kind : ∀ (op : requests.Op) r r', (!asksSecond ⟨op, r⟩) = !asksSecond ⟨op, r'⟩ := by
    intro op r r'
    have same : asksSecond ⟨op, r⟩ = asksSecond ⟨op, r'⟩ := by
      rw [Bool.eq_iff_iff, asksSecond_iff, asksSecond_iff]
    rw [same]
  refine runs_takeWhile_eq kind runs answered runs' answered' fun past e rest split other => ?_
  refine consulting_agree runs same split fun second => ?_
  rw [second] at other
  cases other

theorem same_history_iff (runs : Runs (run plan t started) h a)
    (answered : (consulting world (first.during swaps)).Answers h) (same : first'.ranked = first.ranked)
    (runs' : Runs (run plan t started) k b)
    (answered' : (consulting world (first'.during swaps')).Answers k) :
    k = h ∧ b = a ↔ ((∃ e ∈ h, asksSecond e = true) →
      (first'.during swaps' (mainPart h).length).tellsSecond =
        (first.during swaps (mainPart h).length).tellsSecond) := by
  constructor
  · rintro ⟨rfl, -⟩ ⟨e, member, second⟩
    have told := (second_told runs' answered' member second).symm.trans
      (second_told runs answered member second)
    exact eq_of_heq (Exchanged.mk.inj told).2
  · intro alike
    refine runs_answered_unique runs (answered.congr fun past e rest split => ?_) runs' answered'
    refine consulting_agree runs same split fun second => alike ⟨e, ?_, second⟩
    rw [split]
    exact List.mem_append_right _ List.mem_cons_self

/-- **Swaps reach a refresh at its second source only.** Whatever providers are swapped while a refresh
runs, it goes as it would without swaps, had the provider of the second source that is in place once the
main fetch is over been there from the beginning. So it has the main fetch of every refresh with the same
provider of ranks in the same world, and the same history and result exactly if the second source, if it is
asked, tells the same. In particular swaps of the provider of ranks do not reach it, nor do swaps of the
second source after it was asked. -/
theorem swaps_reach_second_only (runs : Runs (run plan t started) h a)
    (answered : (consulting world (first.during swaps)).Answers h) :
    let asked := (mainPart h).length
    let late := { first with supplementary := (first.during swaps asked).supplementary }
    (consulting world (late.during noSwaps)).Answers h ∧
    (∀ (first' : Slots) (swaps' : Nat → List Swap) (k : List (Exchanged requests))
      (b : Except RefreshError Nat), first'.ranked = first.ranked → Runs (run plan t started) k b →
      (consulting world (first'.during swaps')).Answers k →
        mainPart k = mainPart h ∧
        (k = h ∧ b = a ↔ ((∃ e ∈ h, asksSecond e = true) →
          (first'.during swaps' asked).tellsSecond = (first.during swaps asked).tellsSecond))) ∧
    ((∀ n < asked, ∀ provider, .supplementary provider ∉ swaps n) →
      (consulting world (first.during noSwaps)).Answers h ∧
      ∀ k b, Runs (run plan t started) k b → (consulting world (first.during noSwaps)).Answers k →
        k = h ∧ b = a) := by
  intro asked late
  have same : late.ranked = first.ranked := rfl
  have replayed : (consulting world (late.during noSwaps)).Answers h := by
    refine answered.congr fun past e rest split => consulting_agree runs same split fun _ => ?_
    rw [Slots.during_noSwaps]
    rfl
  refine ⟨replayed, fun first' swaps' k b same runs' answered' =>
    ⟨mainPart_eq runs answered same runs' answered', same_history_iff runs answered same runs' answered'⟩,
    fun left => ?_⟩
  have kept : late = first := congrArg (Slots.mk first.ranked) (Slots.during_supplementary left)
  rw [kept] at replayed
  exact ⟨replayed, fun k b runs' answered' => runs_answered_unique runs replayed runs' answered'⟩

end Swaps

def obliging : Strategy requests
  | _, .inl (.pause _) => some Signal.elapsed
  | _, .inl (.store _) => some (α := Except RefreshError Unit) (.ok ())
  | _, .inl (.publish _) | _, .inl .markReady | _, .inl (.finish _ _ _) => some ()
  | _, .inl (.ids _ _) | _, .inl .breakDown => none
  | _, .inr (.chunk ids) =>
    some (α := Except FetchError Payloads) (.ok (Table.ofList (ids.map fun id => (id, [49]))))

def oneBeside : Slots := ⟨some (Ranking.fixed ["a", "b"]).top, some (Ranking.fixed ["x"]).top⟩

def midway : Nat → List Swap
  | 0 => [.supplementary (some (Ranking.fixed ["y", "z"]).top)]
  | _ + 1 => []

def servedWith (more : List String) : List (Exchanged requests) :=
  [⟨.inl (.ids .ranked 2), some (.ok ["a", "b"])⟩,
    ⟨.inr (.chunk ["a", "b"]), .ok (Table.ofList [("a", [49]), ("b", [49])])⟩,
    ⟨.inl (.store (Table.ofList [("a", [49]), ("b", [49])])), .ok ()⟩,
    ⟨.inl (.publish (.chunkStored "prices" "top" 2)), ()⟩,
    ⟨.inl (.ids .supplementary 0), some (.ok more)⟩,
    ⟨.inr (.chunk more), .ok (Table.ofList (more.map fun id => (id, [49])))⟩,
    ⟨.inl (.store (Table.ofList (more.map fun id => (id, [49])))), .ok ()⟩,
    ⟨.inl (.publish (.chunkStored "prices" "top" more.length)), ()⟩,
    ⟨.inl .markReady, ()⟩, ⟨.inl (.publish (.tierCompleted "prices" "top" (2 + more.length))), ()⟩,
    ⟨.inl (.finish "top" 0 true), ()⟩]

private theorem runs_servedWith :
    Runs (run pairwise topTwo 0) (servedWith ["x"]) (.ok 3) ∧
      Runs (run pairwise topTwo 0) (servedWith ["y", "z"]) (.ok 4) :=
  ⟨.ask (.ask (.ask (.ask (.ask (.ask (.ask (.ask (.ask (.ask (.ask (.done _))))))))))),
    .ask (.ask (.ask (.ask (.ask (.ask (.ask (.ask (.ask (.ask (.ask (.done _)))))))))))⟩

private theorem answers_servedWith :
    (consulting obliging (oneBeside.during noSwaps)).Answers (servedWith ["x"]) ∧
      (consulting obliging (oneBeside.during midway)).Answers (servedWith ["y", "z"]) :=
  ⟨⟨rfl, rfl, rfl, rfl, rfl, rfl, rfl, rfl, rfl, rfl, rfl, trivial⟩,
    ⟨rfl, rfl, rfl, rfl, rfl, rfl, rfl, rfl, rfl, rfl, rfl, trivial⟩⟩

theorem swaps_reach_second_only_midway :
    Runs (run pairwise topTwo 0) (servedWith ["y", "z"]) (.ok 4) ∧
      (consulting obliging (oneBeside.during midway)).Answers (servedWith ["y", "z"]) ∧
      (consulting obliging (({ oneBeside with supplementary := some (Ranking.fixed ["y", "z"]).top }).during
        noSwaps)).Answers (servedWith ["y", "z"]) ∧
      ∀ k b, Runs (run pairwise topTwo 0) k b →
        (consulting obliging (oneBeside.during noSwaps)).Answers k →
          mainIds k = ["a", "b"] ∧ ¬ (k = servedWith ["y", "z"] ∧ b = .ok 4) := by
  obtain ⟨replayed, compared, -⟩ := swaps_reach_second_only runs_servedWith.2 answers_servedWith.2
  refine ⟨runs_servedWith.2, answers_servedWith.2, replayed, fun k b runs answered => ?_⟩
  obtain ⟨main, same⟩ := compared oneBeside noSwaps k b rfl runs answered
  refine ⟨?_, fun equal => ?_⟩
  · rw [mainIds, main]
    rfl
  · have told := same.mp equal ⟨⟨.inl (.ids .supplementary 0), some (.ok ["y", "z"])⟩,
      by simp [servedWith], rfl⟩
    change some (Except.ok ["x"]) = some (Except.ok ["y", "z"]) at told
    simp at told

/-- A swap does reach a running refresh: it asks for other identifiers and ends with another result. -/
theorem swap_reaches_running_refresh :
    Runs (run pairwise topTwo 0) (servedWith ["x"]) (.ok 3) ∧
      (consulting obliging (oneBeside.during noSwaps)).Answers (servedWith ["x"]) ∧
      Runs (run pairwise topTwo 0) (servedWith ["y", "z"]) (.ok 4) ∧
      (consulting obliging (oneBeside.during midway)).Answers (servedWith ["y", "z"]) ∧
      ¬ ∀ (world : Strategy requests) (first : Slots) (swaps : Nat → List Swap) (plan : Plan) (t : Tier)
        (started : Instant) (h k : List (Exchanged requests)) (a b : Except RefreshError Nat),
        Runs (run plan t started) h a → (consulting world (first.during swaps)).Answers h →
        Runs (run plan t started) k b → (consulting world (first.during noSwaps)).Answers k →
          h.flatMap askedIds = k.flatMap askedIds ∧ a = b := by
  refine ⟨runs_servedWith.1, answers_servedWith.1, runs_servedWith.2, answers_servedWith.2,
    fun unreached => ?_⟩
  cases (unreached obliging oneBeside midway pairwise topTwo 0 _ _ _ _ runs_servedWith.2
    answers_servedWith.2 runs_servedWith.1 answers_servedWith.1).2

end Refresh

end MarketFeed
