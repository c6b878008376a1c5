import MarketFeed.Proofs.Refresh.Rounds
/-!
The order of the tiers does not matter. A round in which the refreshes of accepted tiers are interleaved
in any way leaves what one refresh at a time leaves, tier after tier as configured, and on the way no tier
overwrites what another one has stored.
-/

set_option autoImplicit false
set_option relaxedAutoImplicit false

namespace MarketFeed.Refresh

open Program Simulation

variable {κ : Type} {client : Handler κ Client.fetches} {f : FeedState}
  {reply : List String → Except FetchError Payloads} {ranked : List String} {plan : Plan}
  {tier : Tier} {started : Instant}

/-! ### One refresh at a time -/

structure GoingOn (f : FeedState) (reply : List String → Except FetchError Payloads)
    (program : Program requests (Except RefreshError Nat)) (before : List RefreshThread)
    (w : RefreshSystem κ) (t : RefreshThread) (p : Program requests (Except RefreshError Nat)) :
    Prop where
  threads : w.threads = before ++ [t]
  steady : Steady f w.state.1
  tells : Tells f w.now
  origin : t.origin = program
  rest : t.rest = p
  after : program.After t.history p
  told : Told f reply t.history
  present : t.pose ≠ .gone
  uncancelled : t.cancelled = false

section GoingOn

variable {program : Program requests (Except RefreshError Nat)} {before : List RefreshThread}
  {w : RefreshSystem κ} {t : RefreshThread}

def afterMove (client : Handler κ Client.fetches) (before : List RefreshThread)
    (w : RefreshSystem κ) (t : RefreshThread) : RefreshSystem κ :=
  ⟨w.now, (t.move (undisturbed client).toHandler w.now w.state).2,
    before ++ [(t.move (undisturbed client).toHandler w.now w.state).1]⟩

private theorem GoingOn.moves {p : Program requests (Except RefreshError Nat)}
    (goingOn : GoingOn f reply program before w t p) :
    (undisturbed client).Next w (afterMove client before w t) := by
  have found : w.threads[before.length]? = some t := by simp [goingOn.threads]
  have moved := Setting.Next.move (A := undisturbed client) found
  have last : w.threads.set before.length
      (t.move (undisturbed client).toHandler w.now w.state).1 =
        before ++ [(t.move (undisturbed client).toHandler w.now w.state).1] := by
    simp [goingOn.threads]
  rw [last] at moved
  exact moved

variable {op : requests.Op} {next : requests.Answer op → Program requests (Except RefreshError Nat)}

private theorem GoingOn.answered (replies : Replies client reply)
    (goingOn : GoingOn f reply program before w t (.ask op next)) {a : requests.Answer op}
    (given : (t.handled (undisturbed client).toHandler w.now op w.state).1 = .answer a) :
    ∃ t', GoingOn f reply program before (afterMove client before w t) t' (next a) := by
  have moved := Thread.move_ask (undisturbed client).toHandler w.now w.state goingOn.rest
    goingOn.present
  have settled := answer?_of_handled replies goingOn.steady goingOn.tells goingOn.uncancelled
    (congrArg Step.answer? given)
  rw [given] at moved
  refine ⟨t.answered w.now op a (next a), ?_⟩
  have history := t.history_answered w.now op a (next a)
  exact {
    threads := by rw [afterMove, moved]; rfl
    steady := (move_told replies goingOn.steady goingOn.tells goingOn.uncancelled goingOn.told).1
    tells := goingOn.tells
    origin := goingOn.origin
    rest := rfl
    after := by
      rw [history]
      exact goingOn.after.trans (.ask (.here _))
    told := by
      rw [history]
      exact List.forall_mem_append.mpr ⟨goingOn.told, List.forall_mem_singleton.mpr settled⟩
    present := nofun
    uncancelled := goingOn.uncancelled }

private theorem GoingOn.waits (replies : Replies client reply)
    (goingOn : GoingOn f reply program before w t (.ask op next)) {until_ : Instant}
    (given : (t.handled (undisturbed client).toHandler w.now op w.state).1 = .wait until_) :
    GoingOn f reply program before (afterMove client before w t) { t with pose := .waiting }
      (.ask op next) := by
  have moved := Thread.move_ask (undisturbed client).toHandler w.now w.state goingOn.rest
    goingOn.present
  rw [given] at moved
  exact {
    threads := by rw [afterMove, moved]; rfl
    steady := (move_told replies goingOn.steady goingOn.tells goingOn.uncancelled goingOn.told).1
    tells := goingOn.tells
    origin := goingOn.origin
    rest := goingOn.rest
    after := goingOn.after
    told := goingOn.told
    present := nofun
    uncancelled := goingOn.uncancelled }

private theorem GoingOn.goes_on (replies : Replies client reply) (prompt : Prompt client reply)
    (safe : op ≠ .inl .breakDown)
    (goingOn : GoingOn f reply program before w t (.ask op next)) :
    ∃ a w' t', (undisturbed client).Leads w w' ∧ w'.now = w.now ∧
      GoingOn f reply program before w' t' (next a) := by
  obtain ⟨a, settled⟩ : ∃ a, answer? f reply op = some a := by
    cases settled : answer? f reply op with
    | none => exact absurd (answer?_eq_none settled) safe
    | some a => exact ⟨a, rfl⟩
  refine ⟨a, ?_⟩
  rcases handled_gives replies goingOn.steady goingOn.tells goingOn.uncancelled settled with
    answered | ⟨until_, waits⟩
  · obtain ⟨t', further⟩ := goingOn.answered replies answered
    exact ⟨_, t', .single goingOn.moves, rfl, further⟩
  · have waiting := goingOn.waits replies waits
    have answered := handled_answers prompt waiting.steady waiting.tells waiting.uncancelled rfl
      settled
    obtain ⟨t', further⟩ := waiting.answered replies answered
    exact ⟨_, t', .tail (.single goingOn.moves) waiting.moves, rfl, further⟩

private theorem GoingOn.ends (replies : Replies client reply) (prompt : Prompt client reply)
    (range : tier.IsRange) (source : f.ranked = some (.fixed ranked))
    {p : Program requests (Except RefreshError Nat)}
    (goingOn : GoingOn f reply (run plan tier started) before w t p) :
    ∃ w' t', (undisturbed client).Leads w w' ∧ w'.now = w.now ∧ w'.threads = before ++ [t'] ∧
      Refreshed plan tier t' ∧ Steady f w'.state.1 := by
  -- each answer leaves less of the program, and none is missing since it never asks to break down
  induction p generalizing w t with
  | done r =>
    exact ⟨w, t, .refl, rfl, goingOn.threads,
      ⟨⟨started, goingOn.origin⟩, ⟨r, goingOn.rest⟩, goingOn.uncancelled⟩, goingOn.steady⟩
  | ask op next ih =>
    have keeps := keepsTo_of_after range goingOn.after (goingOn.told.rankedBy source)
    have safe : op ≠ .inl .breakDown := by
      rintro rfl
      exact keeps.safe next rfl
    obtain ⟨a, w', t', leads, same, further⟩ := goingOn.goes_on replies prompt safe
    obtain ⟨u, t'', leads', same', ended⟩ := ih a further
    exact ⟨u, t'', leads.trans leads', same'.trans same, ended⟩

end GoingOn

private theorem exists_inTurn (replies : Replies client reply) (prompt : Prompt client reply)
    {tiers : List Tier} (ranges : ∀ t ∈ tiers, t.IsRange) (source : f.ranked = some (.fixed ranked))
    {w : RefreshSystem κ} (steady : Steady f w.state.1) (tells : Tells f w.now) :
    ∃ u, InTurn client plan tiers w u ∧ u.now = w.now := by
  induction tiers generalizing w with
  | nil => exact ⟨w, .nil w, rfl⟩
  | cons tier tiers ih =>
    have ⟨range, others⟩ := List.forall_mem_cons.mp ranges
    have starts : (undisturbed client).Next w
        ⟨w.now, w.state, w.threads ++ [.ofProgram (run plan tier w.now) w.now]⟩ :=
      .start ⟨plan, tier, w.now, rfl⟩
    have begun : GoingOn f reply (run plan tier w.now) w.threads
        ⟨w.now, w.state, w.threads ++ [.ofProgram (run plan tier w.now) w.now]⟩
        (.ofProgram (run plan tier w.now) w.now) (run plan tier w.now) :=
      ⟨rfl, steady, tells, rfl, rfl, .here _, nofun, nofun, rfl⟩
    obtain ⟨v, t, leads, same, threads, refreshed, kept⟩ := begun.ends replies prompt range source
    obtain ⟨u, inTurn, same'⟩ := ih others kept (same ▸ tells)
    exact ⟨u, .cons (.head starts leads) threads refreshed inTurn, same'.trans same⟩

/-- The order of the tiers does not matter. For accepted tiers without a second source, a ranked list
without repetitions, and a client whose answer depends on nothing but the chunk and has nothing but what
was asked for: whichever way the refreshes of a round are interleaved, over a store that takes what it is
given, the store ends up with the same value under each key, or with none, as after one refresh at a
time, tier after tier as configured; and on the way no move of a refresh changes an entry that another
one has stored. One refresh at a time comes to its end with every client that has its answer after a
wait. -/
theorem tier_order_immaterial {tiers : List Tier} {s : FeedState × κ} {w : RefreshSystem κ}
    (accepted : Tier.validate tiers = none) (plain : ∀ t ∈ tiers, t.supplementary = false)
    (source : s.1.ranked = some (.fixed ranked)) (distinct : ranked.Nodup)
    (replies : Replies client reply) (obliging : Obliging reply)
    (accepts : s.1.storage.writeFails = false) (round : Round client tiers s w)
    (tells : Tells s.1 w.now) :
    (∀ now u, InTurn client s.1.plan tiers ⟨now, s, []⟩ u → Tells s.1 u.now →
      ∀ k, w.state.1.storage.store.value? k = u.state.1.storage.store.value? k) ∧
    (∀ v, (undisturbed client).Reaches s v → (undisturbed client).Leads v w →
      ∀ (i j : Nat) (t t' : RefreshThread), i ≠ j → v.threads[i]? = some t →
        v.threads[j]? = some t' → ∀ k, (stores s.1.slice t'.history).contains k = true →
          (t.move (undisturbed client).toHandler v.now v.state).2.1.storage.store.entries.get? k =
            v.state.1.storage.store.entries.get? k) ∧
    (Prompt client reply → ∀ now, Tells s.1 now →
      ∃ u, InTurn client s.1.plan tiers ⟨now, s, []⟩ u ∧ u.now = now) := by
  have shares : Shares ranked s.1 tiers :=
    ⟨source, distinct, Tier.isRange_of_validate accepted, plain, Tier.apart_of_validate accepted⟩
  refine ⟨?_, ?_, ?_⟩
  · intro now u inTurn tells' k
    exact round.value?_eq replies accepts shares obliging tells inTurn.round tells' k
  · intro v reached leads i j t t' other found found' k there
    obtain ⟨order, perm, calm⟩ := round.calm tells
    have earlier := calm.leads leads
    have foreseen := Foreseen.reached replies accepts reached earlier
    rcases move_stores client t foreseen.steady earlier.tells with
      ⟨storage, -⟩ | ⟨chunk, next, asks, entries, -⟩
    · rw [storage]
    · rw [entries, stores_apart (shares.perm perm) obliging reached earlier foreseen other found
        found' asks there]
      rfl
  · intro prompt now tells'
    exact exists_inTurn replies prompt shares.ranges source ⟨rfl, rfl, rfl, accepts⟩ tells'

def sparing (ids : List String) : Except FetchError Payloads :=
  if ids = ["b"] then .error (.invalidResponse "expected a JSON object")
  else .ok (Table.ofList (ids.filterMap fun id => (some [1]).map fun v => (id, v)))

def answering (reply : List String → Except FetchError Payloads) : Handler Unit Client.fetches where
  start _ _
    | .chunk _, s => (.wait 0, s)
  resume _ _
    | .chunk ids, s => (.answer (reply ids), s)

private theorem obliging_sparing : Obliging sparing := by
  intro ids data replied id held
  rw [sparing] at replied
  split at replied
  · cases replied
  · cases replied
    rw [Table.contains, Table.get?_ofList_filterMap (fun _ => some [1])] at held
    split at held
    · assumption
    · cases held

def twoTiers : FeedState where
  plan := ⟨"coins", true, .single, {}⟩
  slice := ⟨"coins", Duration.ofSeconds 60⟩
  schedule := .ofTiers [followers, leaders]
  storage := ⟨Cache.Store.empty.put (Cache.key "coins" "b") ⟨[7], 5⟩, false, false⟩
  ranked := some (.fixed ["a", "b", "c", "d", "e"])
  supplementary := none
  ready := false
  bus := .ofCapacity 1
  limits := []

def alternating : RefreshSystem Unit :=
  ((List.replicate 14 [0, 1]).flatten).foldl (undisturbed (answering sparing)).moveOf
    ⟨0, (twoTiers, ()), [.ofProgram (run twoTiers.plan leaders 0) 0,
      .ofProgram (run twoTiers.plan followers 0) 0]⟩

private theorem round_alternating :
    Round (answering sparing) [followers, leaders] (twoTiers, ()) alternating where
  reached := by
    have first := Setting.Next.start (A := undisturbed (answering sparing))
      (w := ⟨0, (twoTiers, ()), []⟩) ⟨twoTiers.plan, leaders, 0, rfl⟩
    have second := Setting.Next.start (A := undisturbed (answering sparing))
      (w := ⟨0, (twoTiers, ()), [.ofProgram (run twoTiers.plan leaders 0) 0]⟩)
      ⟨twoTiers.plan, followers, 0, rfl⟩
    exact ⟨0, .head first (.head second (Setting.leads_moves _ _))⟩
  each := by
    refine ⟨[leaders, followers], .swap _ _ _, ?_⟩
    have threads : alternating.threads = [_, _] := rfl
    rw [threads]
    exact .cons ⟨⟨0, rfl⟩, ⟨_, rfl⟩, rfl⟩ (.cons ⟨⟨0, rfl⟩, ⟨_, rfl⟩, rfl⟩ .nil)

theorem tier_order_immaterial_alternating :
    Tier.validate [followers, leaders] = none ∧
    Round (answering sparing) [followers, leaders] (twoTiers, ()) alternating ∧
    ["a", "b", "d", "e"].map (fun id =>
      alternating.state.1.storage.store.value? (Cache.key "coins" id)) =
        [some [1], some [7], some [1], some [1]] ∧
    ∃ u, InTurn (answering sparing) twoTiers.plan [followers, leaders] ⟨0, (twoTiers, ()), []⟩ u ∧
      ∀ k, alternating.state.1.storage.store.value? k = u.state.1.storage.store.value? k := by
  have tells : Tells twoTiers 0 := by decide
  have replies : Replies (answering sparing) sparing :=
    ⟨fun _ _ _ _ => .inr ⟨0, rfl⟩, fun _ _ _ _ => .inl rfl⟩
  obtain ⟨same, -, ends⟩ := tier_order_immaterial validate_followers_leaders (by decide) rfl
    (by decide) replies obliging_sparing rfl round_alternating tells
  obtain ⟨u, inTurn, time⟩ := ends (fun _ _ _ => rfl) 0 tells
  have tells' : Tells twoTiers u.now := time ▸ tells
  exact ⟨validate_followers_leaders, round_alternating, rfl, u, inTurn, same 0 u inTurn tells'⟩

end MarketFeed.Refresh
