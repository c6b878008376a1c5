import MarketFeed.ChunkFetch
import MarketFeed.Proofs.Simulation.Elapsing
import MarketFeed.Table.Lemmas
/-!
Fetching chunk by chunk, told by the answers of the client. The chunks are asked for in the order of the
plan, each answer is delivered before the next chunk is asked for, the first failure ends the fetch and
names its chunk, and without one all answers together are the result. Between a delivery and the next
request lies the configured pause.
-/

set_option autoImplicit false
set_option relaxedAutoImplicit false

namespace MarketFeed.ChunkFetch

open Program Simulation

/-! ### What is done -/

/-- What others see of a fetch. -/
inductive Doing where
  | fetch (chunk : List String)
  | deliver (arrived : Payloads)

def doing? : Exchanged requests → Option Doing
  | ⟨.inl (.pause _), _⟩ => none
  | ⟨.inl (.deliver arrived), _⟩ => some (.deliver arrived)
  | ⟨.inr (.chunk ids), _⟩ => some (.fetch ids)

def rounds (chunks : List (List String)) (arrived : List Payloads) : List Doing :=
  (chunks.zip arrived).flatMap fun round => [.fetch round.1, .deliver round.2]

/-- What is done about some chunks and how it ends, by the answers of the client: either a chunk fails and
all before it arrive, or all of them arrive. Where several hold a payload of one identifier, the last
counts. -/
inductive Concludes (chunks : List (List String)) (answers : Nat → Except FetchError Payloads) :
    List Doing → Except FetchError Payloads → Prop where
  | failed {before rest : List (List String)} {chunk : List String} {arrived : List Payloads}
      {e : FetchError} (cut : chunks = before ++ chunk :: rest)
      (came : (List.range before.length).map answers = arrived.map .ok)
      (failed : answers before.length = .error e) :
      Concludes chunks answers (rounds before arrived ++ [.fetch chunk])
        (.error (if e.isCancelled then e
          else .chunkFailed (before.length + 1) chunks.length chunk.length e))
  | succeeded {arrived : List Payloads} {data : Payloads}
      (came : (List.range chunks.length).map answers = arrived.map .ok)
      (together : ∀ id, data.get? id = arrived.reverse.findSome? fun chunk => chunk.get? id) :
      Concludes chunks answers (rounds chunks arrived) (.ok data)

/-- Asked and answered by a client while nobody cancels: the next chunk is number `k`, and it gets the
answer of its number. -/
def Answered (answers : Nat → Except FetchError Payloads) : Nat → List (Exchanged requests) → Prop
  | _, [] => True
  | k, ⟨.inl (.pause _), signal⟩ :: h => signal = Signal.elapsed ∧ Answered answers k h
  | k, ⟨.inl (.deliver _), _⟩ :: h => Answered answers k h
  | k, ⟨.inr (.chunk _), r⟩ :: h => r = answers k ∧ Answered answers (k + 1) h

variable {answers : Nat → Except FetchError Payloads} {chunks : List (List String)}

theorem Concludes.unique {doings doings' : List Doing} {r r' : Except FetchError Payloads}
    (first : Concludes chunks answers doings r) (second : Concludes chunks answers doings' r') :
    doings = doings' ∧ r = r' := by
  have arrives {n i : Nat} {arrived : List Payloads} {e : FetchError}
      (came : (List.range n).map answers = arrived.map .ok) (failed : answers i = .error e) :
      n ≤ i := by
    refine Nat.le_of_not_lt fun below => ?_
    have listed : answers i ∈ arrived.map .ok := came ▸ List.mem_map_of_mem (List.mem_range.mpr below)
    obtain ⟨data, -, ok⟩ := List.mem_map.mp listed
    cases ok.trans failed
  have same_arrived {n : Nat} {arrived arrived' : List Payloads}
      (came : (List.range n).map answers = arrived.map .ok)
      (came' : (List.range n).map answers = arrived'.map .ok) : arrived = arrived' :=
    (List.map_inj_right fun _ _ => Except.ok.inj).mp (came.symm.trans came')
  cases first with
  | @failed before rest chunk arrived e cut came failed =>
    cases second with
    | @failed before' rest' chunk' arrived' e' cut' came' failed' =>
      have length : before.length = before'.length :=
        Nat.le_antisymm (arrives came failed') (arrives came' failed)
      obtain ⟨rfl, tails⟩ := List.append_inj (cut.symm.trans cut') length
      obtain ⟨rfl, -⟩ := List.cons.inj tails
      cases same_arrived came came'
      cases Except.error.inj (failed.symm.trans failed')
      exact ⟨rfl, rfl⟩
    | succeeded came' _ =>
      have short := arrives came' failed
      rw [cut, List.length_append, List.length_cons] at short
      omega
  | succeeded came together =>
    cases second with
    | @failed _ _ _ _ _ cut' _ failed' =>
      have short := arrives came failed'
      rw [cut', List.length_append, List.length_cons] at short
      omega
    | succeeded came' together' =>
      cases same_arrived came came'
      have same := Table.ext_get? fun id => (together id).trans (together' id).symm
      exact ⟨rfl, congrArg Except.ok same⟩

/-! ### Runs -/

private theorem exists_answered {α : Type} (answers : Nat → Except FetchError Payloads) (k : Nat)
    (p : Program requests α) : ∃ h a, Runs p h a ∧ Answered answers k h := by
  induction p generalizing k with
  | done a => exact ⟨[], a, .done a, trivial⟩
  | ask op next ih =>
    match op with
    | .inl (.pause d) =>
      obtain ⟨h, a, runs, answered⟩ := ih Signal.elapsed k
      exact ⟨_, a, .ask runs, rfl, answered⟩
    | .inl (.deliver chunk) =>
      obtain ⟨h, a, runs, answered⟩ := ih () k
      exact ⟨_, a, .ask runs, answered⟩
    | .inr (.chunk ids) =>
      obtain ⟨h, a, runs, answered⟩ := ih (answers k) (k + 1)
      exact ⟨_, a, .ask runs, rfl, answered⟩

private theorem prepare_answered {delay : Duration} {index k : Nat} {signal : Signal}
    {h l : List (Exchanged requests)} (runs : Runs (prepare delay index) h signal)
    (answered : Answered answers k (h ++ l)) :
    signal = .elapsed ∧ h.filterMap doing? = [] ∧ Answered answers k l := by
  rw [prepare] at runs
  split at runs
  · obtain ⟨rfl, rfl⟩ := runs_pure runs
    exact ⟨rfl, rfl, answered⟩
  · cases runs_call (S := requests) runs
    exact ⟨answered.1, rfl, answered.2⟩

private theorem fetchFrom_answered {delay : Duration} {total index : Nat} {data : Payloads}
    {h : List (Exchanged requests)} {r : Except FetchError Payloads}
    (runs : Runs (fetchFrom delay total index chunks data) h r) (answered : Answered answers index h) :
    (∃ before chunk rest arrived e, chunks = before ++ chunk :: rest ∧
        (List.range' index before.length).map answers = arrived.map .ok ∧
        answers (index + before.length) = .error e ∧
        h.filterMap doing? = rounds before arrived ++ [.fetch chunk] ∧
        r = .error (blame (index + before.length) total chunk.length e)) ∨
      ∃ arrived, (List.range' index chunks.length).map answers = arrived.map .ok ∧
        h.filterMap doing? = rounds chunks arrived ∧ r = .ok (arrived.foldl Table.union data) := by
  induction chunks generalizing index data h with
  | nil =>
    obtain ⟨rfl, rfl⟩ := runs_pure runs
    exact .inr ⟨[], rfl, rfl, rfl⟩
  | cons chunk chunks ih =>
    obtain ⟨k, l, signal, rfl, preparing, fetching⟩ := runs_bind runs
    obtain ⟨rfl, silent, asked⟩ := prepare_answered preparing answered
    obtain ⟨answer, l, rfl, going⟩ := runs_call_bind (S := requests) (.inr (.chunk chunk)) fetching
    obtain ⟨rfl, onward⟩ := asked
    rw [List.filterMap_append, silent, List.nil_append, List.filterMap_cons]
    cases came : answers index with
    | error e =>
      rw [came] at going
      obtain ⟨rfl, rfl⟩ := runs_pure going
      exact .inl ⟨[], chunk, chunks, [], e, rfl, rfl, came, rfl, rfl⟩
    | ok arrived =>
      rw [came] at going
      obtain ⟨_, l, rfl, later⟩ := runs_call_bind (S := requests) (.inl (.deliver arrived)) going
      rcases ih later onward with ⟨before, failing, rest, others, e, rfl, early, failed, told, rfl⟩ |
        ⟨others, all, told, rfl⟩
      · refine .inl ⟨chunk :: before, failing, rest, arrived :: others, e, rfl, ?_, ?_, ?_, ?_⟩
        · rw [List.length_cons, List.range'_succ, List.map_cons, List.map_cons, came, early]
        · rwa [List.length_cons, Nat.add_comm before.length, ← Nat.add_assoc]
        · exact congrArg (Doing.fetch chunk :: Doing.deliver arrived :: ·) told
        · rw [List.length_cons, Nat.add_comm before.length, ← Nat.add_assoc]
      · refine .inr ⟨arrived :: others, ?_, ?_, rfl⟩
        · rw [List.length_cons, List.range'_succ, List.map_cons, List.map_cons, came, all]
        · exact congrArg (Doing.fetch chunk :: Doing.deliver arrived :: ·) told

private theorem get?_together (arrived : List Payloads) (data : Payloads) (id : String) :
    (arrived.foldl Table.union data).get? id =
      (arrived.reverse.findSome? fun chunk => chunk.get? id).or (data.get? id) := by
  induction arrived generalizing data with
  | nil => rfl
  | cons chunk arrived ih =>
    rw [List.foldl_cons, ih, Table.get?_union, List.reverse_cons, List.findSome?_append, Option.or_assoc]
    simp

private theorem fetchAll_answered {config : ChunkConfig} {mode : Endpoint.Mode} {ids : List String}
    {h : List (Exchanged requests)} {r : Except FetchError Payloads}
    (runs : Runs (fetchAll config mode ids) h r) (answered : Answered answers 0 h) :
    Concludes (ChunkPlan.plan ids mode config) answers (h.filterMap doing?) r := by
  rcases fetchFrom_answered runs answered with
    ⟨before, chunk, rest, arrived, e, cut, came, failed, told, rfl⟩ | ⟨arrived, came, told, rfl⟩
  · rw [Nat.zero_add] at failed ⊢
    rw [← List.range_eq_range'] at came
    rw [told, blame]
    exact .failed cut came failed
  · rw [← List.range_eq_range'] at came
    rw [told]
    refine .succeeded came fun id => ?_
    rw [get?_together, Table.get?_empty, Option.or_none]

/-! ### Pauses -/

/-- Timers do not go off early: a pause that is not cancelled lasts for its span. -/
def Patient {σ : Type} (v : Service σ requests) (d : Duration) : Prop :=
  ∀ now s later s', v (.inl (.pause d)) now s Signal.elapsed later s' → now + d.nanos ≤ later

def Delivers (e : Spanned requests) : Prop := ∃ chunk, e.exchanged.op = .inl (.deliver chunk)

def Requests (e : Spanned requests) : Prop := ∃ ids, e.exchanged.op = .inr (.chunk ids)

/-- After every delivery a number of nanoseconds passes before another chunk is asked for. -/
def Spaced (nanos : Nat) (log : List (Spanned requests)) : Prop :=
  log.Pairwise fun e e' => Delivers e → Requests e' → e.answered + nanos ≤ e'.asked

section Pauses

variable {σ : Type} {v : Service σ requests} {delay : Duration} {now later : Instant} {s s' : σ}
  {log : List (Spanned requests)}

private theorem prepare_spaced {index : Nat} {signal : Signal} (patient : Patient v delay)
    (elapses : (prepare delay index).Elapses v now s log signal later s') :
    (∀ e ∈ log, ¬ Delivers e ∧ ¬ Requests e) ∧
      (signal = .elapsed → index ≠ 0 → now + delay.nanos ≤ later) := by
  rw [prepare] at elapses
  split at elapses
  next atOnce =>
    obtain ⟨rfl, -, rfl, -⟩ := elapses_pure elapses
    refine ⟨nofun, fun _ other => ?_⟩
    rw [Bool.or_eq_true, decide_eq_true_eq] at atOnce
    have zero : delay.nanos = 0 := beq_iff_eq.mp (atOnce.resolve_left other)
    rw [zero]
    exact Nat.le_refl _
  next =>
    obtain ⟨asked, passed, served, rfl⟩ := elapses_call (S := requests) elapses
    constructor
    · intro e member
      rw [List.mem_singleton.mp member]
      exact ⟨nofun, nofun⟩
    · rintro rfl -
      exact Nat.le_trans (Nat.add_le_add_right passed _) (patient _ _ _ _ served)

private theorem Spaced.append {nanos : Nat} {k l : List (Spanned requests)} (first : Spaced nanos k)
    (second : Spaced nanos l) (silent : ∀ e ∈ k, ¬ Delivers e) : Spaced nanos (k ++ l) :=
  List.pairwise_append.mpr ⟨first, second, fun e member _ _ delivers => absurd delivers (silent e member)⟩

private theorem fetchFrom_spaced {total index : Nat} {data : Payloads} {r : Except FetchError Payloads}
    (forward : v.Forward) (patient : Patient v delay)
    (elapses : (fetchFrom delay total index chunks data).Elapses v now s log r later s') :
    Spaced delay.nanos log ∧
      ∀ e ∈ log, Requests e → index ≠ 0 → now + delay.nanos ≤ e.asked := by
  induction chunks generalizing index data now s log with
  | nil =>
    obtain ⟨rfl, -⟩ := elapses_pure elapses
    exact ⟨.nil, nofun⟩
  | cons chunk chunks ih =>
    obtain ⟨k, l, signal, between, mid, rfl, preparing, fetching⟩ := elapses_bind elapses
    obtain ⟨aside, paused⟩ := prepare_spaced patient preparing
    have before : Spaced delay.nanos k :=
      List.pairwise_of_forall_mem_list fun e member _ _ delivers => absurd delivers (aside e member).1
    suffices rest : Spaced delay.nanos l ∧ ∀ e ∈ l, signal = .elapsed ∧ between ≤ e.asked by
      refine ⟨before.append rest.1 fun e member => (aside e member).1, fun e member requests later => ?_⟩
      rcases List.mem_append.mp member with early | late
      · exact absurd requests (aside e early).2
      · obtain ⟨elapsed, after⟩ := rest.2 e late
        exact Nat.le_trans (paused elapsed later) after
    have after (e) (member : e ∈ l) : between ≤ e.asked :=
      ((fetching.chronological forward).within e member).1
    cases signal with
    | cancelled =>
      obtain ⟨rfl, -⟩ := elapses_pure fetching
      exact ⟨.nil, nofun⟩
    | elapsed =>
      refine ⟨?_, fun e member => ⟨rfl, after e member⟩⟩
      obtain ⟨asked, came, answer, _, l, rfl, -, -, going⟩ :=
        elapses_call_bind (S := requests) (.inr (.chunk chunk)) fetching
      have request : Spaced delay.nanos [⟨asked, came, ⟨.inr (.chunk chunk), answer⟩⟩] :=
        List.pairwise_singleton ..
      refine request.append (l := l) ?_ (List.forall_mem_singleton.mpr nofun)
      cases answer with
      | error e =>
        obtain ⟨rfl, -⟩ := elapses_pure going
        exact .nil
      | ok arrived =>
        obtain ⟨begun, ended, -, _, l, rfl, -, -, rest⟩ :=
          elapses_call_bind (S := requests) (.inl (.deliver arrived)) going
        obtain ⟨spaced, later⟩ := ih rest
        exact List.pairwise_cons.mpr
          ⟨fun e member _ requests => later e member requests (Nat.succ_ne_zero index), spaced⟩

end Pauses

private theorem nanos_ofMillis (n : UInt64) :
    (Duration.ofMillis n.toNat).nanos = n.toNat * nanosPerMilli := Duration.nanos_ofMillis n.toNat_lt

/-- A fetch of many chunks that nobody cancels. The answers of the client decide which chunks are asked for
and which answers are delivered, in which order, and how the fetch ends. Where timers do not go off early,
at least the configured pause lies between the end of each delivery and the next request. -/
theorem fetches_in_order (config : ChunkConfig) (mode : Endpoint.Mode) (ids : List String)
    (answers : Nat → Except FetchError Payloads) :
    ∃ doings outcome, Concludes (ChunkPlan.plan ids mode config) answers doings outcome ∧
      (ids = [] → doings = []) ∧
      (∃ h, Runs (fetchAll config mode ids) h outcome ∧ Answered answers 0 h) ∧
      (∀ h result, Runs (fetchAll config mode ids) h result → Answered answers 0 h →
        h.filterMap doing? = doings ∧ result = outcome) ∧
      ∀ (σ : Type) (v : Service σ requests) now s log result later s', v.Forward →
        Patient v (Duration.ofMillis config.chunkDelayMs.toNat) →
        (fetchAll config mode ids).Elapses v now s log result later s' →
        Spaced (config.chunkDelayMs.toNat * nanosPerMilli) log := by
  obtain ⟨h₀, outcome, runs₀, answered₀⟩ := exists_answered answers 0 (fetchAll config mode ids)
  have concludes := fetchAll_answered runs₀ answered₀
  refine ⟨_, outcome, concludes, ?_, ⟨h₀, runs₀, answered₀⟩, ?_, ?_⟩
  · rintro rfl
    have unplanned : ChunkPlan.plan [] mode config = [] := by cases mode <;> rfl
    rw [fetchAll, unplanned] at runs₀
    obtain ⟨rfl, -⟩ := runs_pure runs₀
    rfl
  · exact fun h result runs answered => (fetchAll_answered runs answered).unique concludes
  · intro σ v now s log result later s' forward patient elapses
    rw [← nanos_ofMillis]
    exact (fetchFrom_spaced forward patient elapses).1

/-- Surroundings whose timers keep their time; anything else may take any time. -/
def punctual : Service Unit requests
  | .inl (.pause d), now, s, _, later, s' => later = Instant.timer now d ∧ s' = s
  | op, now, s, r, later, s' => Service.any Unit requests op now s r later s'

def brokenOff : Nat → Except FetchError Payloads
  | 1 => .error (.bodyRead "reset")
  | _ => .ok ∅

def interrupted : List (Spanned requests) :=
  [⟨0, 5000000, ⟨.inr (.chunk ["a"]), .ok ∅⟩⟩, ⟨5000000, 6000000, ⟨.inl (.deliver ∅), ()⟩⟩,
    ⟨6000000, 1006000000, ⟨.inl (.pause (Duration.ofMillis 1000)), Signal.elapsed⟩⟩,
    ⟨1006000000, 1009000000, ⟨.inr (.chunk ["b"]), .error (.bodyRead "reset")⟩⟩]

theorem fetches_in_order_interrupted :
    punctual.Forward ∧ Patient punctual (Duration.ofMillis 1000) ∧
    (fetchAll {} .single ["a", "b", "c"]).Elapses punctual 0 () interrupted
      (.error (.chunkFailed 2 3 1 (.bodyRead "reset"))) 1009000000 () ∧
    Answered brokenOff 0 (interrupted.map Spanned.exchanged) ∧
    Concludes [["a"], ["b"], ["c"]] brokenOff [.fetch ["a"], .deliver ∅, .fetch ["b"]]
      (.error (.chunkFailed 2 3 1 (.bodyRead "reset"))) ∧
    Spaced 1000000000 interrupted := by
  have forward : punctual.Forward := by
    rintro ((d | chunk) | ids) now s r later s' served
    · obtain ⟨rfl, -⟩ := served
      exact Nat.le_trans (Nat.le_add_right now _) (Instant.le_nextMilli _)
    · exact served.1
    · exact served.1
  have patient : Patient punctual (Duration.ofMillis 1000) := by
    rintro now s later s' ⟨rfl, -⟩
    exact Instant.le_nextMilli (now + 1000000000)
  have elapses : (fetchAll {} .single ["a", "b", "c"]).Elapses punctual 0 () interrupted
      (.error (.chunkFailed 2 3 1 (.bodyRead "reset"))) 1009000000 () := by
    have early : (0 : Nat) ≤ 5000000 := by decide
    have mid : (5000000 : Nat) ≤ 6000000 := by decide
    have late : (1006000000 : Nat) ≤ 1009000000 := by decide
    exact .ask (Nat.le_refl _) ⟨early, rfl⟩ <| .ask (Nat.le_refl _) ⟨mid, rfl⟩ <|
      .ask (Nat.le_refl _) ⟨rfl, rfl⟩ <| .ask (Nat.le_refl _) ⟨late, rfl⟩ <| .done ..
  have answered : Answered brokenOff 0 (interrupted.map Spanned.exchanged) := ⟨rfl, rfl, rfl, trivial⟩
  obtain ⟨doings, outcome, concludes, -, -, all, spaced⟩ :=
    fetches_in_order {} .single ["a", "b", "c"] brokenOff
  obtain ⟨rfl, rfl⟩ := all _ _ elapses.runs answered
  exact ⟨forward, patient, elapses, answered, concludes, spaced _ _ _ _ _ _ _ _ forward patient elapses⟩

end MarketFeed.ChunkFetch
