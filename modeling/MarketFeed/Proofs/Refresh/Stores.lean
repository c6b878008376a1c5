import Mathlib.Data.List.Induction
import MarketFeed.Proofs.Cache.Isolation
import MarketFeed.Proofs.Refresh.Asking
import MarketFeed.Proofs.Refresh.Publication
import MarketFeed.Proofs.Refresh.Ranks
import MarketFeed.Simulation.RunningFeed
/-!
What one refresh stores. Where its feed takes every chunk and the client answers the same chunk in the
same way, the refresh of a tier always stores the same, and without a second source it is all about
identifiers at the ranks of the tier.
-/

set_option autoImplicit false
set_option relaxedAutoImplicit false

namespace MarketFeed.Refresh

open Program Simulation

def storedIn : Exchanged requests → Option Payloads
  | ⟨.inl (.store chunk), .ok ()⟩ => some chunk
  | _ => none

/-- What the stores of a history leave under each key; of two payloads for one key the later counts. -/
def stores (slice : Cache.Slice) (h : List (Exchanged requests)) : Table Bytes :=
  ((h.filterMap storedIn).map slice.keyed).foldl Table.union ∅

variable {slice : Cache.Slice} {h : List (Exchanged requests)}

theorem stores_append_of_none {e : Exchanged requests} (other : storedIn e = none) :
    stores slice (h ++ [e]) = stores slice h := by
  simp [stores, List.filterMap_append, other]

theorem stores_append_of_some {e : Exchanged requests} {chunk : Payloads}
    (stored : storedIn e = some chunk) :
    stores slice (h ++ [e]) = (stores slice h).union (slice.keyed chunk) := by
  simp [stores, List.filterMap_append, stored]

theorem storedIn_eq_some {e : Exchanged requests} {chunk : Payloads}
    (stored : storedIn e = some chunk) : e = ⟨.inl (.store chunk), .ok ()⟩ := by
  obtain ⟨op, answer⟩ := e
  match op, answer, stored with
  | .inl (.store _), .ok (), stored => cases stored; rfl

theorem storedIn_eq_none {op : requests.Op} (idle : ∀ chunk, op ≠ .inl (.store chunk))
    (a : requests.Answer op) : storedIn ⟨op, a⟩ = none := by
  cases stored : storedIn ⟨op, a⟩ with
  | none => rfl
  | some chunk =>
    cases storedIn_eq_some stored
    exact absurd rfl (idle chunk)

theorem get?_stores {k : String} {v : Bytes} (left : (stores slice h).get? k = some v) :
    ∃ chunk id, (⟨.inl (.store chunk), .ok ()⟩ : Exchanged requests) ∈ h ∧
      k = Cache.key slice.scope id ∧ chunk.get? id = some v := by
  induction h using List.reverseRecOn with
  | nil => cases left
  | append_singleton h e ih =>
    cases stored : storedIn e with
    | none =>
      rw [stores_append_of_none stored] at left
      obtain ⟨chunk, id, member, found⟩ := ih left
      exact ⟨chunk, id, List.mem_append_left _ member, found⟩
    | some chunk =>
      rw [stores_append_of_some stored, Table.get?_union] at left
      rcases Option.or_eq_some_iff.mp left with last | ⟨-, before⟩
      · obtain ⟨id, here, payload⟩ := Cache.get?_keyed last
        cases storedIn_eq_some stored
        exact ⟨chunk, id, List.mem_append_right _ List.mem_cons_self, here, payload⟩
      · obtain ⟨chunk, id, member, found⟩ := ih before
        exact ⟨chunk, id, List.mem_append_left _ member, found⟩

/-! ### Answers that leave no choice -/

/-- What a refresh is answered if its feed keeps its sources and takes every chunk, the client answers
by `reply`, and nobody cancels it. -/
def answer? (f : FeedState) (reply : List String → Except FetchError Payloads) :
    (op : requests.Op) → Option (requests.Answer op)
  | .inl (.ids source limit) => some ((f.source source).map fun r => r.top limit)
  | .inl (.pause _) => some Signal.elapsed
  | .inl (.store _) => some (Except.ok () : Except RefreshError Unit)
  | .inl (.publish _) => some ()
  | .inl .markReady => some ()
  | .inl (.finish _ _ _) => some ()
  | .inl .breakDown => none
  | .inr (.chunk ids) => some (reply ids)

/-- Whether every answer of a history is the one that leaves no choice. -/
def Told (f : FeedState) (reply : List String → Except FetchError Payloads)
    (h : List (Exchanged requests)) : Prop := ∀ e ∈ h, answer? f reply e.op = some e.answer

variable {f : FeedState} {reply : List String → Except FetchError Payloads} {plan : Plan} {t : Tier}
  {started started' : Instant}

theorem Told.rankedBy {ranked : List String} (told : Told f reply h)
    (source : f.ranked = some (.fixed ranked)) : ∀ e ∈ h, RankedBy ranked e := by
  intro e member
  unfold RankedBy
  split
  · rename_i limit answer
    have given : some ((f.source .ranked).map fun r => r.top limit) = some answer := told _ member
    have fixed : f.source .ranked = some (.fixed ranked) := source
    rw [fixed] at given
    exact (Option.some.inj given).symm
  · trivial

private theorem runs_run (slice : Cache.Slice) {r : Except RefreshError Nat} (runs : Runs (run plan t started) h r) :
    ∃ k result, Runs (body plan t) k result ∧ k <+: h ∧ stores slice h = stores slice k := by
  obtain ⟨k, l, result, rfl, fetched, ended⟩ := runs_bind runs
  obtain ⟨u, l, rfl, finished⟩ :=
    runs_call_bind (S := requests) (.inl (.finish t.name started (succeeded result))) ended
  obtain ⟨rfl, -⟩ := runs_pure finished
  exact ⟨k, result, fetched, List.prefix_append _ _, stores_append_of_none rfl⟩

/-- The stores of a refresh are determined: they depend neither on when it started nor on anything
else. -/
theorem stores_unique {k : List (Exchanged requests)} {r r' : Except RefreshError Nat}
    (runs : Runs (run plan t started) h r) (told : Told f reply h)
    (runs' : Runs (run plan t started') k r') (told' : Told f reply k) :
    stores slice h = stores slice k := by
  obtain ⟨main, result, fetched, begins, same⟩ := runs_run slice runs
  obtain ⟨main', result', fetched', begins', same'⟩ := runs_run slice runs'
  obtain ⟨equal, -⟩ := runs_unique fetched (fun e member => told e (begins.subset member)) fetched'
    fun e member => told' e (begins'.subset member)
  rw [same, same', equal]

/-! ### Identifiers of the ranks alone -/

def OtherThanSecond (op : requests.Op) : Prop := ∀ limit, op ≠ .inl (.ids .supplementary limit)

private theorem permits_otherThanSecond (plan : Plan) (plain : t.supplementary = false) :
    Permits plan t OtherThanSecond where
  step _ _ first limit same := first limit (Sum.inl.inj same)
  second supplementary := by
    rw [plain] at supplementary
    cases supplementary
  chunk _ _ _ := nofun

private theorem OtherThanSecond.not_asksSecond {e : Exchanged requests} (other : OtherThanSecond e.op) :
    asksSecond e = false := by
  unfold asksSecond
  split
  · exact absurd rfl (other _)
  · rfl

variable {ranked : List String} {q : Program requests (Except RefreshError Nat)}

private theorem mem_idsOf_of_asked (range : t.IsRange) (plain : t.supplementary = false)
    (source : f.ranked = some (.fixed ranked)) (after : (run plan t started).After h q)
    (told : Told f reply h) {e : Exchanged requests} (member : e ∈ h) {id : String}
    (asked : id ∈ askedIds e) : id ∈ t.idsOf ranked := by
  have keeps := keepsTo_of_after range after (told.rankedBy source)
  have asks := (permits_otherThanSecond plan plain).asks_run range started
  have all : mainPart h = h := mainPart_of_ahead fun e member =>
    (asks.history after e member).not_asksSecond
  refine keeps.first.subset ?_
  rw [mainIds, all]
  exact List.mem_flatMap.mpr ⟨e, member, asked⟩

/-- A client that answers with nothing but what it is asked for. -/
def Obliging (reply : List String → Except FetchError Payloads) : Prop :=
  ∀ ids data, reply ids = .ok data → ∀ id, data.contains id = true → id ∈ ids

theorem mem_idsOf_of_stores (range : t.IsRange) (plain : t.supplementary = false)
    (source : f.ranked = some (.fixed ranked)) (obliging : Obliging reply) {chunk : Payloads}
    {next : Except RefreshError Unit → Program requests (Except RefreshError Nat)}
    (after : (run plan t started).After h (.ask (.inl (.store chunk)) next))
    (told : Told f reply h) {id : String} (stored : chunk.contains id = true) :
    id ∈ t.idsOf ranked := by
  obtain ⟨ids, fetched⟩ := ((obeys_run plan t started).after after).1.fetched chunk rfl
  have replied : reply ids = .ok chunk := Option.some.inj (told _ fetched)
  exact mem_idsOf_of_asked range plain source after told fetched (obliging ids chunk replied id stored)

theorem mem_idsOf_of_get?_stores (range : t.IsRange) (plain : t.supplementary = false)
    (source : f.ranked = some (.fixed ranked)) (obliging : Obliging reply)
    (after : (run plan t started).After h q) (told : Told f reply h) {k : String} {v : Bytes}
    (left : (stores slice h).get? k = some v) :
    ∃ id ∈ t.idsOf ranked, k = Cache.key slice.scope id := by
  obtain ⟨chunk, id, member, here, payload⟩ := get?_stores left
  obtain ⟨before, later, cut⟩ := List.append_of_mem member
  subst cut
  obtain ⟨next, stores, -⟩ := after.cut
  have earlier : Told f reply before := fun e member => told e (List.mem_append_left _ member)
  have contained : chunk.contains id = true := by
    rw [Table.contains, payload]
    rfl
  exact ⟨id, mem_idsOf_of_stores range plain source obliging stores earlier contained, here⟩

end MarketFeed.Refresh
