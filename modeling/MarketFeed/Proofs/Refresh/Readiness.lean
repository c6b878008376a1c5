import MarketFeed.Proofs.Feed.Effects
import MarketFeed.Proofs.Refresh.Publication
import MarketFeed.Proofs.Simulation.Interleaving
/-!
Refreshes side by side. However they are interleaved, a feed is ready exactly if a completion was
announced, and nothing that a refresh does takes back what was stored.
-/

set_option autoImplicit false
set_option relaxedAutoImplicit false

namespace MarketFeed.Refresh

open Program Simulation

variable {κ : Type} {client : Handler κ Client.fetches}

/-- Any number of refreshes of one feed beside anything else that does not mark it as ready. -/
def refreshing (client : Handler κ Client.fetches) :
    Setting (FeedState × κ) requests (Except RefreshError Nat) where
  toHandler := (Handler.onFirst ⟨FeedState.startStep, FeedState.resumeStep⟩).sum client.onSecond
  starts _ _ p := ∃ plan tier started, p = run plan tier started
  changes _ s s' := s'.1.ready = s.1.ready

abbrev RefreshThread : Type := Thread requests (Except RefreshError Nat)

def Marked (t : RefreshThread) : Prop := ∃ e ∈ t.history, e.op = .inl .markReady

def Announced (t : RefreshThread) : Prop := ∃ e ∈ t.history, IsCompletion e.op

/-- A refresh that goes on with the announcement of its completion and is not suspended before it. -/
def Announcing (t : RefreshThread) : Prop :=
  t.pose = .ready ∧ ∃ op next, t.rest = .ask op next ∧ IsCompletion op

/-- A refresh between two of its turns: it has asked nothing yet, it is suspended, or it is over. -/
def Resting (t : RefreshThread) : Prop :=
  t.log = [] ∨ t.pose ≠ .ready ∨ ∃ r, t.rest = .done r

/-! ### One refresh -/

theorem Announced.marked {plan : Plan} {tier : Tier} {started : Instant} {t : RefreshThread}
    (announced : Announced t) (after : (run plan tier started).After t.history t.rest) :
    Marked t := by
  obtain ⟨e, member, completes⟩ := announced
  obtain ⟨h, k, cut⟩ := List.append_of_mem member
  rw [cut] at after
  obtain ⟨next, before, -⟩ := after.cut
  have allowed := ((obeys_run plan tier started).after before).1
  obtain ⟨e', last, marks⟩ := allowed.flag.mpr completes
  refine ⟨e', ?_, marks⟩
  rw [cut]
  exact List.mem_append_left _ (List.mem_of_getLast? last)

theorem Announcing.not_resting {plan : Plan} {tier : Tier} {started : Instant} {t : RefreshThread}
    (announcing : Announcing t) (after : (run plan tier started).After t.history t.rest) :
    ¬ Resting t := by
  obtain ⟨pose, op, next, asks, completes⟩ := announcing
  rintro (fresh | suspended | ⟨r, ended⟩)
  · rw [Thread.history, fresh, asks] at after
    have allowed := ((obeys_run plan tier started).after after).1
    exact not_flagged_nil (allowed.flag.mpr completes)
  · exact suspended pose
  · rw [asks] at ended
    cases ended

theorem Marked.announces {plan : Plan} {tier : Tier} {started : Instant} {t : RefreshThread}
    (marked : Marked t) (after : (run plan tier started).After t.history t.rest) :
    Announced t ∨ ∃ op next, t.rest = .ask op next ∧ IsCompletion op := by
  obtain ⟨e, member, marks⟩ := marked
  obtain ⟨h, k, cut⟩ := List.append_of_mem member
  have flagged : Flagged (h ++ [e]) := (flagged_concat h e).mpr marks
  have obeys := (obeys_run plan tier started).after after
  rw [cut] at after obeys
  cases k with
  | nil =>
    rw [List.nil_append] at obeys
    cases left : t.rest with
    | done r =>
      rw [left] at obeys
      exact absurd flagged obeys.1
    | ask op next =>
      rw [left] at obeys
      exact .inr ⟨op, next, rfl, obeys.1.flag.mp flagged⟩
  | cons e' k =>
    rw [List.append_cons] at after
    obtain ⟨next, before, -⟩ := after.cut
    have allowed := ((obeys_run plan tier started).after before).1
    refine .inl ⟨e', ?_, allowed.flag.mp flagged⟩
    rw [cut]
    exact List.mem_append_right _ (List.mem_cons_of_mem _ List.mem_cons_self)

/-! ### One move -/

private theorem handled_marks (t : RefreshThread) (now : Instant) {op : requests.Op}
    (s : FeedState × κ) (marks : op = .inl .markReady) :
    ∃ a, (t.handled (refreshing client).toHandler now op s).1 = .answer a ∧
      (t.handled (refreshing client).toHandler now op s).2.1.ready = true := by
  subst marks
  refine t.handled_of (refreshing client).toHandler now (.inl .markReady) s
    (fun r => ∃ a, r.1 = .answer a ∧ r.2.1.ready = true) ?_ ?_
  · exact ⟨(), rfl, rfl⟩
  · exact ⟨(), rfl, rfl⟩

theorem op_cases (op : requests.Op) :
    (∃ step, op = .inl step) ∨ ∃ fetch, op = .inr fetch := by
  cases op with
  | inl step => exact .inl ⟨step, rfl⟩
  | inr fetch => exact .inr ⟨fetch, rfl⟩

theorem handled_feed (t : RefreshThread) (now : Instant) {op : requests.Op} {step : Op}
    (s : FeedState × κ) (feed : op = .inl step) :
    (t.handled (refreshing client).toHandler now op s).2.1 =
      (FeedState.startStep now t.cancelled step s.1).2 := by
  subst feed
  exact t.handled_of (refreshing client).toHandler now (.inl step) s (·.2.1 = _)
    (FeedState.resumeStep_state now t.cancelled step s.1) rfl

theorem handled_client (t : RefreshThread) (now : Instant) {op : requests.Op}
    {fetch : Client.fetches.Op} (s : FeedState × κ) (asked : op = .inr fetch) :
    (t.handled (refreshing client).toHandler now op s).2.1 = s.1 := by
  subst asked
  exact t.handled_of (refreshing client).toHandler now (.inr fetch) s (·.2.1 = _) rfl rfl

theorem handled_storage (t : RefreshThread) (now : Instant) {op : requests.Op}
    (s : FeedState × κ) (idle : ∀ chunk, op ≠ .inl (.store chunk)) :
    (t.handled (refreshing client).toHandler now op s).2.1.storage = s.1.storage := by
  rcases op_cases op with ⟨step, feed⟩ | ⟨fetch, asked⟩
  · rw [handled_feed t now s feed]
    refine FeedState.startStep_storage now t.cancelled s.1 fun chunk same => idle chunk ?_
    rw [feed, same]
  · rw [handled_client t now s asked]

private theorem handled_ready (t : RefreshThread) (now : Instant) {op : requests.Op}
    (s : FeedState × κ) (other : op ≠ .inl .markReady) :
    (t.handled (refreshing client).toHandler now op s).2.1.ready = s.1.ready := by
  rcases op_cases op with ⟨step, feed⟩ | ⟨fetch, asked⟩
  · rw [handled_feed t now s feed]
    refine FeedState.startStep_ready now t.cancelled s.1 fun same => other ?_
    rw [feed, same]
  · rw [handled_client t now s asked]

private theorem handled_publish (t : RefreshThread) (now : Instant) (event : RefreshEvent)
    (s : FeedState × κ) :
    (t.handled (refreshing client).toHandler now (.inl (.publish event)) s).1 =
      Step.answer (α := Unit) () :=
  t.handled_of (refreshing client).toHandler now (.inl (.publish event)) s (·.1 = _) rfl rfl

theorem Marked.onward {t t' : RefreshThread} (marked : Marked t) (onward : t.Onward t') :
    Marked t' := by
  obtain ⟨e, member, marks⟩ := marked
  obtain ⟨more, log, -⟩ := onward.more
  refine ⟨e, ?_, marks⟩
  rw [Thread.history, log, List.map_append]
  exact List.mem_append_left _ member

private theorem move_marked (client : Handler κ Client.fetches) {t : RefreshThread} (now : Instant)
    {s : FeedState × κ} (known : Marked t → s.1.ready = true) :
    (t.move (refreshing client).toHandler now s).2.1.ready = true ↔
      s.1.ready = true ∨ Marked (t.move (refreshing client).toHandler now s).1 := by
  rcases t.move_cases (refreshing client).toHandler now s with
    still | ⟨op, next, asks, present, moved⟩
  · rw [still]
    exact ⟨.inl, fun either => either.elim id known⟩
  · rw [moved]
    by_cases marks : op = .inl .markReady
    · obtain ⟨a, answered, ready⟩ := handled_marks t now s marks
      have marked : Marked (t.answered now op a (next a)) := by
        refine ⟨⟨op, a⟩, ?_, marks⟩
        rw [Thread.history_answered]
        exact List.mem_append_right _ List.mem_cons_self
      rw [answered]
      exact iff_of_true ready (.inr marked)
    · rw [handled_ready t now s marks]
      refine ⟨.inl, fun either => either.elim id fun ⟨e, member, mark⟩ => known ?_⟩
      rcases t.settled_cases now next (t.handled (refreshing client).toHandler now op s).1 with
        ⟨a, -, log, -⟩ | ⟨-, log, -⟩
      · rw [Thread.history, log, List.map_append, List.mem_append] at member
        rcases member with old | new
        · exact ⟨e, old, mark⟩
        · rw [List.mem_singleton.mp new] at mark
          exact absurd mark marks
      · rw [Thread.history, log] at member
        exact ⟨e, member, mark⟩

/-! ### Any number of refreshes -/

variable {s : FeedState × κ} {w : System (FeedState × κ) requests (Except RefreshError Nat)}

theorem exists_mem_set {β : Type} {l : List β} {i : Nat} {x y : β} {P : β → Prop}
    (found : l[i]? = some x) (kept : P x → P y) :
    (∃ z ∈ l.set i y, P z) ↔ (∃ z ∈ l, P z) ∨ P y := by
  obtain ⟨inside, here⟩ := List.getElem?_eq_some_iff.mp found
  constructor
  · rintro ⟨z, member, holds⟩
    rcases List.mem_or_eq_of_mem_set member with old | rfl
    · exact .inl ⟨z, old, holds⟩
    · exact .inr holds
  · rintro (⟨z, member, holds⟩ | holds)
    · obtain ⟨k, bound, rfl⟩ := List.getElem_of_mem member
      by_cases same : i = k
      · subst same
        rw [here] at holds
        exact ⟨y, List.mem_set inside y, kept holds⟩
      · refine ⟨l[k], ?_, holds⟩
        have elsewhere : (l.set i y)[k]? = some l[k] := by
          rw [List.getElem?_set_ne same, List.getElem?_eq_getElem bound]
        exact List.mem_of_getElem? elsewhere
    · exact ⟨y, List.mem_set inside y, holds⟩

private theorem ready_iff_marked (fresh : s.1.ready = false)
    (reached : (refreshing client).Reaches s w) :
    w.state.1.ready = true ↔ ∃ t ∈ w.threads, Marked t := by
  obtain ⟨now, run⟩ := reached
  induction run with
  | refl => simp [fresh]
  | @tail v v' _ next ih =>
    cases next with
    | pass later => exact ih
    | @start p may =>
      have unmarked : ¬ Marked (Thread.ofProgram p v.now) := fun ⟨e, member, _⟩ => nomatch member
      rw [ih]
      constructor
      · rintro ⟨t, member, marked⟩
        exact ⟨t, List.mem_append_left _ member, marked⟩
      · rintro ⟨t, member, marked⟩
        rcases List.mem_append.mp member with old | new
        · exact ⟨t, old, marked⟩
        · rw [List.mem_singleton.mp new] at marked
          exact absurd marked unmarked
    | @cancel i t found =>
      have member := List.mem_of_getElem? found
      have set := exists_mem_set (P := Marked) (y := { t with cancelled := true }) found id
      refine (ih.trans ?_).trans set.symm
      exact ⟨.inl, fun either => either.elim id fun marked => ⟨t, member, marked⟩⟩
    | @move i t found =>
      have member := List.mem_of_getElem? found
      have set := exists_mem_set found fun marked : Marked t =>
        marked.onward (t.onward_move (refreshing client).toHandler v.now v.state)
      have moved := move_marked client v.now fun marked => ih.mpr ⟨t, member, marked⟩
      exact (moved.trans (or_congr_left ih)).trans set.symm
    | change same =>
      show _ = true ↔ _
      rw [same]
      exact ih

private theorem ready_to_announce (reached : (refreshing client).Reaches s w) :
    ∀ t ∈ w.threads, ∀ op next, t.rest = .ask op next → IsCompletion op → t.pose = .ready := by
  obtain ⟨now, run⟩ := reached
  induction run with
  | refl => simp
  | @tail v v' _ next ih =>
    intro t' member
    rcases next.mem member with ⟨t, old, rfl | rfl | rfl⟩ | ⟨p, may, rfl⟩
    · exact ih t' old
    · exact ih t old
    · rcases t.move_cases (refreshing client).toHandler v.now v.state with
        still | ⟨op, next, asks, present, moved⟩
      · rw [still]
        exact ih t old
      · rw [moved]
        intro op' next' asks' completes
        cases handled : (t.handled (refreshing client).toHandler v.now op v.state).1 with
        | answer a => rfl
        | cancelling a => rfl
        | wait until_ =>
          rw [handled] at asks'
          cases asks.symm.trans asks'
          match op, completes with
          | .inl (.publish event), _ => cases (handled_publish t _ event _).symm.trans handled
        | breakDown =>
          rw [handled] at asks'
          cases asks.symm.trans asks'
          match op, completes with
          | .inl (.publish event), _ => cases (handled_publish t _ event _).symm.trans handled
    · intro _ _ _ _
      rfl

/-! ### What is stored -/

/-- A refresh takes back nothing: an entry stays until the chunk that a refresh is about to store has
a fresher payload for its key. -/
theorem move_keeps_entry (client : Handler κ Client.fetches) (t : RefreshThread) (now : Instant)
    (s : FeedState × κ) {k : String} {e : Cache.Entry}
    (stored : s.1.storage.store.entries.get? k = some e) :
    (t.move (refreshing client).toHandler now s).2.1.storage.store.entries.get? k = some e ∨
      ∃ chunk next id v, t.rest = .ask (.inl (.store chunk)) next ∧ chunk.get? id = some v ∧
        k = Cache.key s.1.slice.scope id ∧
        (t.move (refreshing client).toHandler now s).2.1.storage.store.entries.get? k =
          some ⟨v, Instant.after now s.1.slice.ttl⟩ := by
  rcases t.move_cases (refreshing client).toHandler now s with still | ⟨op, next, asks, -, moved⟩
  · rw [still]
    exact .inl stored
  · rw [moved]
    by_cases storing : ∃ chunk, op = .inl (.store chunk)
    · obtain ⟨chunk, rfl⟩ := storing
      rw [handled_feed t now s rfl]
      rcases FeedState.startStep_store now t.cancelled chunk s.1 with same | ⟨store, written, eq⟩
      · rw [same]
        exact .inl stored
      · rw [eq]
        rcases Cache.write?_entry written k with same | ⟨id, v, here, payload, entry⟩
        · exact .inl (same.trans stored)
        · exact .inr ⟨chunk, next, id, v, asks, payload, here, entry⟩
    · rw [handled_storage t now s fun chunk same => storing ⟨chunk, same⟩]
      exact .inl stored

/-- What refreshes publish. A refresh of a tier that has ranks to fetch tells what it did: each chunk
that arrived, in its order, with one attempt to store it if it is not empty and one announcement right
after a successful attempt, and at the end one completion exactly if it succeeds. It takes back nothing
that was stored. However refreshes are interleaved, their feed is ready exactly if a completion was
announced, whenever all of them are between two turns; in the midst of a turn the flag comes first, of
a refresh that goes on with its announcement. -/
theorem refreshes_publish (client : Handler κ Client.fetches) (fresh : s.1.ready = false)
    (reached : (refreshing client).Reaches s w) :
    (∀ plan tier started history result, Runs (run plan tier started) history result →
      ∀ limit ranked slice,
        history.head? = some ⟨.inl (.ids .ranked limit), some (.ok ranked)⟩ →
        tier.slice? ranked = some slice → slice ≠ [] →
        ∃ told, history = told ++ [⟨.inl (.finish tier.name started (succeeded result)), ()⟩] ∧
          Published plan tier slice told result) ∧
      (∀ (t : RefreshThread) now (s : FeedState × κ) k e,
        s.1.storage.store.entries.get? k = some e →
        (t.move (refreshing client).toHandler now s).2.1.storage.store.entries.get? k = some e ∨
          ∃ chunk next id v, t.rest = .ask (.inl (.store chunk)) next ∧ chunk.get? id = some v ∧
            k = Cache.key s.1.slice.scope id ∧
            (t.move (refreshing client).toHandler now s).2.1.storage.store.entries.get? k =
              some ⟨v, Instant.after now s.1.slice.ttl⟩) ∧
      ((∃ t ∈ w.threads, Announced t) → w.state.1.ready = true) ∧
      (w.state.1.ready = true →
        (∃ t ∈ w.threads, Announced t) ∨ ∃ t ∈ w.threads, Announcing t) ∧
      ((∀ t ∈ w.threads, Resting t) →
        (w.state.1.ready = true ↔ ∃ t ∈ w.threads, Announced t)) := by
  have genuine : ∀ t ∈ w.threads, ∃ plan tier started,
      (run plan tier started).After t.history t.rest := by
    intro t member
    obtain ⟨⟨_, _, plan, tier, started, origin⟩, after⟩ := reached.after t member
    rw [origin] at after
    exact ⟨plan, tier, started, after⟩
  have announced_ready : (∃ t ∈ w.threads, Announced t) → w.state.1.ready = true := by
    rintro ⟨t, member, announced⟩
    obtain ⟨plan, tier, started, after⟩ := genuine t member
    exact (ready_iff_marked fresh reached).mpr ⟨t, member, announced.marked after⟩
  have ready_announced : w.state.1.ready = true →
      (∃ t ∈ w.threads, Announced t) ∨ ∃ t ∈ w.threads, Announcing t := by
    intro ready
    obtain ⟨t, member, marked⟩ := (ready_iff_marked fresh reached).mp ready
    obtain ⟨plan, tier, started, after⟩ := genuine t member
    rcases marked.announces after with announced | ⟨op, next, asks, completes⟩
    · exact .inl ⟨t, member, announced⟩
    · have pose := ready_to_announce reached t member op next asks completes
      exact .inr ⟨t, member, pose, op, next, asks, completes⟩
  refine ⟨?_, fun t now s k e => move_keeps_entry client t now s, announced_ready,
    ready_announced, fun resting => ⟨fun ready => ?_, announced_ready⟩⟩
  · intro plan tier started history result runs limit ranked slice asked cut filled
    exact ((obeys_run plan tier started).runs runs).2 limit ranked slice asked cut filled
  · rcases ready_announced ready with announced | ⟨t, member, announcing⟩
    · exact announced
    · obtain ⟨plan, tier, started, after⟩ := genuine t member
      exact absurd (resting t member) (announcing.not_resting after)

def sameForAll : Handler Unit Client.fetches where
  start _ _
    | .chunk ids, s => (.answer (.ok (Table.ofList (ids.map fun id => (id, [1])))), s)
  resume _ _
    | .chunk ids, s => (.answer (.ok (Table.ofList (ids.map fun id => (id, [1])))), s)

def minutely : Tier := Schedule.wholeTier (Duration.ofSeconds 60)

/-- A feed of two identifiers. -/
def smallFeed : FeedState where
  plan := ⟨"coins", false, .batch, {}⟩
  slice := ⟨"coins", Duration.ofSeconds 60⟩
  schedule := .ofTiers [minutely]
  storage := .empty
  ranked := some (.fixed ["a", "b"])
  supplementary := none
  ready := false
  bus := .ofCapacity 1
  limits := []

/-- A refresh of it, seven moves after its start. -/
def finished : RefreshThread × (FeedState × Unit) :=
  (fun x => x.1.move (refreshing sameForAll).toHandler 0 x.2)^[7]
    (.ofProgram (run smallFeed.plan minutely 0) 0, smallFeed, ())

theorem refreshes_publish_small :
    finished.1.rest = .done (.ok 2) ∧ finished.2.1.ready = true ∧ Announced finished.1 ∧
      ∃ told, finished.1.history = told ++ [⟨.inl (.finish minutely.name 0 true), ()⟩] ∧
        told.getLast? = some ⟨.inl (.publish (.refreshCompleted "coins" 2)), ()⟩ ∧
        Published smallFeed.plan minutely ["a", "b"] told (.ok 2) := by
  have ended : finished.1.rest = .done (.ok 2) := rfl
  have reached : (refreshing sameForAll).Reaches (smallFeed, ())
      ⟨0, finished.2, [finished.1]⟩ :=
    Setting.reaches_iterate (A := refreshing sameForAll) ⟨_, _, _, rfl⟩ 7
  obtain ⟨tells, -, -, -, iff_announced⟩ :=
    refreshes_publish sameForAll (s := (smallFeed, ())) rfl reached
  have runs : Runs (run smallFeed.plan minutely 0) finished.1.history (.ok 2) := by
    have after := (reached.after finished.1 List.mem_cons_self).2
    rw [ended] at after
    exact runs_iff_after.mpr after
  have resting : ∀ t ∈ [finished.1], Resting t := by
    intro t member
    rw [List.mem_singleton.mp member]
    exact .inr (.inr ⟨_, ended⟩)
  obtain ⟨t, member, announced⟩ := (iff_announced resting).mp rfl
  rw [List.mem_singleton.mp member] at announced
  obtain ⟨told, whole, published⟩ := tells _ _ _ _ _ runs 0 ["a", "b"] ["a", "b"] rfl rfl (by simp)
  refine ⟨ended, rfl, announced, told, whole, ?_, published⟩
  obtain ⟨-, -, -, before, -, rfl, -⟩ := published
  exact List.getLast?_append_of_ne_nil before (List.cons_ne_nil _ _)

end MarketFeed.Refresh
