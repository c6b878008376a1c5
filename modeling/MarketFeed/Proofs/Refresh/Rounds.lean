import Mathlib.Data.List.Forall2
import MarketFeed.Proofs.Refresh.Undisturbed
/-!
Rounds of refreshes. Tiers with ranks of their own store under keys of their own, so whichever way the
refreshes of a round are interleaved, the store ends up with the same values under the same keys.
-/

set_option autoImplicit false
set_option relaxedAutoImplicit false

namespace MarketFeed

def Cache.Store.value? (s : Cache.Store) (k : String) : Option Bytes :=
  (s.entries.get? k).map Cache.Entry.value

namespace Refresh

open Program Simulation

variable {κ : Type} {client : Handler κ Client.fetches} {f : FeedState}
  {reply : List String → Except FetchError Payloads}

abbrev RefreshSystem (κ : Type) : Type :=
  System (FeedState × κ) requests (Except RefreshError Nat)

/-! ### Rounds -/

structure Refreshed (plan : Plan) (tier : Tier) (t : RefreshThread) : Prop where
  origin : ∃ started, t.origin = run plan tier started
  ended : ∃ r, t.rest = .done r
  uncancelled : t.cancelled = false

/-- A round of refreshes of some tiers: each was started once, in whatever order, their steps were
interleaved in whatever way, and all have ended. -/
structure Round (client : Handler κ Client.fetches) (tiers : List Tier) (s : FeedState × κ)
    (w : RefreshSystem κ) : Prop where
  reached : (undisturbed client).Reaches s w
  each : ∃ order, order.Perm tiers ∧ List.Forall₂ (Refreshed s.1.plan) order w.threads

/-- Refreshes one after the other: each has ended before the next one is started. -/
inductive InTurn (client : Handler κ Client.fetches) (plan : Plan) :
    List Tier → RefreshSystem κ → RefreshSystem κ → Prop where
  | nil (w : RefreshSystem κ) : InTurn client plan [] w w
  | cons {tier : Tier} {tiers : List Tier} {w v u : RefreshSystem κ} {t : RefreshThread}
      (leads : (undisturbed client).Leads w v) (threads : v.threads = w.threads ++ [t])
      (refreshed : Refreshed plan tier t) (rest : InTurn client plan tiers v u) :
      InTurn client plan (tier :: tiers) w u

theorem InTurn.leads {plan : Plan} {tiers : List Tier} {w u : RefreshSystem κ}
    (inTurn : InTurn client plan tiers w u) : (undisturbed client).Leads w u := by
  induction inTurn with
  | nil w => exact .refl
  | cons leads _ _ _ ih => exact leads.trans ih

theorem InTurn.threads {plan : Plan} {tiers : List Tier} {w u : RefreshSystem κ}
    (inTurn : InTurn client plan tiers w u) :
    ∃ more, u.threads = w.threads ++ more ∧ List.Forall₂ (Refreshed plan) tiers more := by
  induction inTurn with
  | nil w => exact ⟨[], (List.append_nil _).symm, .nil⟩
  | @cons tier tiers w v u t _ threads refreshed _ ih =>
    obtain ⟨more, whole, each⟩ := ih
    refine ⟨t :: more, ?_, .cons refreshed each⟩
    rw [whole, threads, List.append_assoc]
    rfl

theorem InTurn.round {tiers : List Tier} {now : Instant} {s : FeedState × κ} {u : RefreshSystem κ}
    (inTurn : InTurn client s.1.plan tiers ⟨now, s, []⟩ u) : Round client tiers s u := by
  obtain ⟨more, whole, each⟩ := inTurn.threads
  rw [List.nil_append] at whole
  exact ⟨⟨now, inTurn.leads⟩, tiers, List.Perm.refl _, whole ▸ each⟩

/-! ### Tiers with ranks of their own -/

/-- Tiers that share a fixed list of identifiers out among them, without a second source. -/
structure Shares (ranked : List String) (f : FeedState) (tiers : List Tier) : Prop where
  source : f.ranked = some (.fixed ranked)
  distinct : ranked.Nodup
  ranges : ∀ t ∈ tiers, t.IsRange
  plain : ∀ t ∈ tiers, t.supplementary = false
  apart : tiers.Pairwise Tier.Apart

theorem Shares.perm {ranked : List String} {tiers order : List Tier}
    (shares : Shares ranked f tiers) (perm : order.Perm tiers) : Shares ranked f order where
  source := shares.source
  distinct := shares.distinct
  ranges t member := shares.ranges t (perm.mem_iff.mp member)
  plain t member := shares.plain t (perm.mem_iff.mp member)
  apart := perm.symm.pairwise shares.apart Tier.Apart.symm

theorem Shares.not_mem {ranked : List String} {tiers : List Tier} (shares : Shares ranked f tiers)
    {i j : Nat} {t u : Tier} (other : i ≠ j) (here : tiers[i]? = some t) (there : tiers[j]? = some u)
    {id : String} (member : id ∈ t.idsOf ranked) : id ∉ u.idsOf ranked := by
  have apart : t.Apart u := Tier.pairwise_apart_iff.mp shares.apart i j t u other here there
  exact apart.not_mem_idsOf (shares.ranges t (List.mem_of_getElem? here))
    (shares.ranges u (List.mem_of_getElem? there)) shares.distinct member

/-! ### On the way through a round -/

/-- A system on its way through a round: the expiry of what is stored can be told, nothing was cancelled,
and the threads are refreshes of some tiers in their order. -/
structure Calm (f : FeedState) (order : List Tier) (w : RefreshSystem κ) : Prop where
  tells : Tells f w.now
  uncancelled : ∀ t ∈ w.threads, t.cancelled = false
  assigned : ∀ (i : Nat) (t : RefreshThread), w.threads[i]? = some t →
    ∃ tier started, order[i]? = some tier ∧ t.origin = run f.plan tier started

theorem Calm.before {order : List Tier} {v w : RefreshSystem κ}
    (next : (undisturbed client).Next v w) (calm : Calm f order w) : Calm f order v where
  tells := calm.tells.mono next.now_le
  uncancelled t member := by
    obtain ⟨i, found⟩ := List.mem_iff_getElem?.mp member
    rcases next.found found with same | cancelled | moved
    · exact calm.uncancelled t (List.mem_of_getElem? same)
    · cases calm.uncancelled _ (List.mem_of_getElem? cancelled)
    · exact Thread.uncancelled_of_move (calm.uncancelled _ (List.mem_of_getElem? moved))
  assigned i t found := by
    obtain ⟨t', found', onward⟩ := Setting.Leads.onward (.single next) found
    obtain ⟨tier, started, here, origin⟩ := calm.assigned i t' found'
    exact ⟨tier, started, here, onward.origin.symm.trans origin⟩

theorem Calm.leads {order : List Tier} {v w : RefreshSystem κ}
    (run : (undisturbed client).Leads v w) (calm : Calm f order w) : Calm f order v := by
  induction run with
  | refl => exact calm
  | tail _ next ih => exact ih (calm.before next)

/-- The feed is as it was but for its store, and every answer was settled beforehand. -/
structure Foreseen (f : FeedState) (reply : List String → Except FetchError Payloads)
    (w : RefreshSystem κ) : Prop where
  steady : Steady f w.state.1
  told : ∀ t ∈ w.threads, Told f reply t.history

theorem Foreseen.next {order : List Tier} {v w : RefreshSystem κ} (replies : Replies client reply)
    (next : (undisturbed client).Next v w) (calm : Calm f order v) (foreseen : Foreseen f reply v) :
    Foreseen f reply w where
  steady := by
    cases next with
    | @move i t found =>
      have member := List.mem_of_getElem? found
      exact (move_told replies foreseen.steady calm.tells (calm.uncancelled t member)
        (foreseen.told t member)).1
    | change may => exact may.elim
    | _ => exact foreseen.steady
  told t' member := by
    rcases next.mem member with ⟨t, old, rfl | rfl | rfl⟩ | ⟨p, -, rfl⟩
    · exact foreseen.told t' old
    · exact foreseen.told t old
    · exact (move_told replies foreseen.steady calm.tells (calm.uncancelled t old)
        (foreseen.told t old)).2
    · exact nofun

theorem Foreseen.reached {order : List Tier} {s : FeedState × κ} {w : RefreshSystem κ}
    (replies : Replies client reply) (accepts : s.1.storage.writeFails = false)
    (reached : (undisturbed client).Reaches s w) (calm : Calm s.1 order w) :
    Foreseen s.1 reply w := by
  obtain ⟨now, run⟩ := reached
  induction run with
  | refl => exact ⟨⟨rfl, rfl, rfl, accepts⟩, nofun⟩
  | tail _ next ih => exact (ih (calm.before next)).next replies next (calm.before next)

theorem stores_apart {ranked : List String} {order : List Tier} {s : FeedState × κ}
    {w : RefreshSystem κ} (shares : Shares ranked f order) (obliging : Obliging reply)
    (reached : (undisturbed client).Reaches s w) (calm : Calm f order w)
    (foreseen : Foreseen f reply w) {i j : Nat} {t u : RefreshThread} (other : i ≠ j)
    (found : w.threads[i]? = some t) (found' : w.threads[j]? = some u) {chunk : Payloads}
    {next : Except RefreshError Unit → Program requests (Except RefreshError Nat)}
    (asks : t.rest = .ask (.inl (.store chunk)) next) {k : String}
    (there : (stores f.slice u.history).contains k = true) : (f.slice.keyed chunk).get? k = none := by
  obtain ⟨tier, started, here, origin⟩ := calm.assigned i t found
  obtain ⟨tier', started', here', origin'⟩ := calm.assigned j u found'
  have inside := List.mem_of_getElem? here
  have inside' := List.mem_of_getElem? here'
  have member := List.mem_of_getElem? found
  have member' := List.mem_of_getElem? found'
  have after := (reached.after t member).2
  have after' := (reached.after u member').2
  rw [origin, asks] at after
  rw [origin'] at after'
  cases stored : (f.slice.keyed chunk).get? k with
  | none => rfl
  | some v =>
    obtain ⟨id, same, payload⟩ := Cache.get?_keyed stored
    obtain ⟨v', left⟩ := Option.isSome_iff_exists.mp there
    obtain ⟨id', stands', same'⟩ := mem_idsOf_of_get?_stores (shares.ranges _ inside')
      (shares.plain _ inside') shares.source obliging after' (foreseen.told u member') left
    have contained : chunk.contains id = true := by
      rw [Table.contains, payload]
      rfl
    have stands := mem_idsOf_of_stores (shares.ranges _ inside) (shares.plain _ inside)
      shares.source obliging after (foreseen.told t member) contained
    cases Cache.key_injective _ (same.symm.trans same')
    exact absurd stands' (shares.not_mem other here here' stands)

/-- What is in the store: under each key what a refresh stored there, or else what was there before the
round. -/
structure Contents (f : FeedState) (w : RefreshSystem κ) : Prop where
  untouched : ∀ k, (∀ t ∈ w.threads, (stores f.slice t.history).get? k = none) →
    w.state.1.storage.store.value? k = f.storage.store.value? k
  written : ∀ t ∈ w.threads, ∀ k v, (stores f.slice t.history).get? k = some v →
    w.state.1.storage.store.value? k = some v

section Contents

variable {ranked : List String} {order tiers : List Tier} {s : FeedState × κ}
  {v w u : RefreshSystem κ}

private theorem mem_set_cases {β : Type} {l : List β} {i : Nat} {x y : β} (member : x ∈ l.set i y) :
    x = y ∨ ∃ j, i ≠ j ∧ l[j]? = some x := by
  obtain ⟨j, found⟩ := List.mem_iff_getElem?.mp member
  by_cases same : i = j
  · subst same
    have inside : i < l.length := by
      have bound := (List.getElem?_eq_some_iff.mp found).1
      rwa [List.length_set] at bound
    rw [List.getElem?_set_self inside] at found
    exact .inl (Option.some.inj found).symm
  · rw [List.getElem?_set_ne same] at found
    exact .inr ⟨j, same, found⟩

private theorem forall_of_set {β : Type} {l : List β} {i : Nat} {x y : β} {P : β → Prop}
    (found : l[i]? = some x) (back : P y → P x) (all : ∀ z ∈ l.set i y, P z) : ∀ z ∈ l, P z := by
  intro z member
  by_contra fails
  have kept : ¬ P x → ¬ P y := fun without holds => without (back holds)
  obtain ⟨z', member', fails'⟩ :=
    (exists_mem_set (P := fun z => ¬ P z) found kept).mpr (.inl ⟨z, member, fails⟩)
  exact fails' (all z' member')

private theorem value?_of_entries {new old : Cache.Store} {data : Table Bytes} {expires : Instant}
    {k : String}
    (entry : new.entries.get? k = ((data.get? k).map fun v => ⟨v, expires⟩).or (old.entries.get? k)) :
    new.value? k = (data.get? k).or (old.value? k) := by
  rw [Cache.Store.value?, entry]
  cases data.get? k <;> rfl

private theorem Contents.move (shares : Shares ranked f order) (obliging : Obliging reply)
    (reached : (undisturbed client).Reaches s v) (calm : Calm f order v)
    (foreseen : Foreseen f reply v) (contents : Contents f v) {i : Nat} {t : RefreshThread}
    (found : v.threads[i]? = some t) :
    Contents f { v with
      state := (t.move (undisturbed client).toHandler v.now v.state).2
      threads := v.threads.set i (t.move (undisturbed client).toHandler v.now v.state).1 } := by
  have member := List.mem_of_getElem? found
  rcases move_stores client t foreseen.steady calm.tells with
    ⟨storage, same⟩ | ⟨chunk, next, asks, entries, gains⟩
  · constructor
    · intro k nothing
      rw [storage]
      exact contents.untouched k (forall_of_set found (fun none => same ▸ none) nothing)
    · intro u member' k value left
      rw [storage]
      rcases mem_set_cases member' with rfl | ⟨j, -, elsewhere⟩
      · rw [same] at left
        exact contents.written t member k value left
      · exact contents.written u (List.mem_of_getElem? elsewhere) k value left
  · constructor
    · intro k nothing
      have inside := (List.getElem?_eq_some_iff.mp found).1
      have last := nothing _ (List.mem_set inside _)
      rw [gains, Table.get?_union, Option.or_eq_none_iff] at last
      have before := forall_of_set found (fun _ => last.2) nothing
      rw [value?_of_entries (entries k), last.1]
      exact contents.untouched k before
    · intro u member' k value left
      rw [value?_of_entries (entries k)]
      -- what the chunk puts under a key is the mover's own; under the keys of the others it has nothing
      rcases mem_set_cases member' with rfl | ⟨j, other, elsewhere⟩
      · rw [gains, Table.get?_union] at left
        rcases Option.or_eq_some_iff.mp left with last | ⟨nothing, earlier⟩
        · rw [last]
          rfl
        · rw [nothing]
          exact contents.written t member k value earlier
      · have apart := stores_apart shares obliging reached calm foreseen other found elsewhere asks
          (k := k) (by rw [Table.contains, left]; rfl)
        rw [apart]
        exact contents.written u (List.mem_of_getElem? elsewhere) k value left

private theorem Contents.next (shares : Shares ranked f order) (obliging : Obliging reply)
    (reached : (undisturbed client).Reaches s v) (foreseen : Foreseen f reply v)
    (next : (undisturbed client).Next v w) (calm : Calm f order w) (contents : Contents f v) :
    Contents f w := by
  have earlier := calm.before next
  cases next with
  | pass later => exact ⟨contents.untouched, contents.written⟩
  | @start p may =>
    constructor
    · intro k nothing
      exact contents.untouched k fun t member => nothing t (List.mem_append_left _ member)
    · intro t member k value left
      rcases List.mem_append.mp member with old | new
      · exact contents.written t old k value left
      · rw [List.mem_singleton.mp new] at left
        cases left
  | @cancel i t found =>
    have inside := (List.getElem?_eq_some_iff.mp found).1
    cases calm.uncancelled _ (List.mem_set inside _)
  | move found => exact contents.move shares obliging reached earlier foreseen found
  | change may => exact may.elim

private theorem Contents.reached (replies : Replies client reply)
    (accepts : s.1.storage.writeFails = false) (shares : Shares ranked s.1 order)
    (obliging : Obliging reply) (reached : (undisturbed client).Reaches s w)
    (calm : Calm s.1 order w) : Contents s.1 w := by
  obtain ⟨now, run⟩ := reached
  induction run with
  | refl => exact ⟨fun _ _ => rfl, nofun⟩
  | @tail v w run next ih =>
    have earlier := calm.before next
    have foreseen := Foreseen.reached replies accepts ⟨now, run⟩ earlier
    exact (ih earlier).next shares obliging ⟨now, run⟩ foreseen next calm

/-! ### Two rounds -/

private theorem getElem?_of_forall₂ {β γ : Type} {R : β → γ → Prop} {l : List β} {m : List γ}
    (each : List.Forall₂ R l m) {i : Nat} {y : γ} (found : m[i]? = some y) :
    ∃ x, l[i]? = some x ∧ R x y := by
  induction each generalizing i with
  | nil => cases found
  | @cons x y' l m related _ ih =>
    cases i with
    | zero =>
      cases found
      exact ⟨x, rfl, related⟩
    | succ i => exact ih found

theorem Round.calm (round : Round client tiers s w) (tells : Tells s.1 w.now) :
    ∃ order, order.Perm tiers ∧ Calm s.1 order w := by
  obtain ⟨order, perm, each⟩ := round.each
  refine ⟨order, perm, tells, ?_, ?_⟩
  · intro t member
    obtain ⟨i, found⟩ := List.mem_iff_getElem?.mp member
    obtain ⟨tier, -, refreshed⟩ := getElem?_of_forall₂ each found
    exact refreshed.uncancelled
  · intro i t found
    obtain ⟨tier, here, refreshed⟩ := getElem?_of_forall₂ each found
    obtain ⟨started, origin⟩ := refreshed.origin
    exact ⟨tier, started, here, origin⟩

private theorem Round.exists_tier (round : Round client tiers s w) {t : RefreshThread}
    (member : t ∈ w.threads) : ∃ tier ∈ tiers, Refreshed s.1.plan tier t := by
  obtain ⟨order, perm, each⟩ := round.each
  obtain ⟨i, found⟩ := List.mem_iff_getElem?.mp member
  obtain ⟨tier, here, refreshed⟩ := getElem?_of_forall₂ each found
  exact ⟨tier, perm.mem_iff.mp (List.mem_of_getElem? here), refreshed⟩

private theorem Round.exists_refreshed (round : Round client tiers s w) {tier : Tier}
    (member : tier ∈ tiers) : ∃ t ∈ w.threads, Refreshed s.1.plan tier t := by
  obtain ⟨order, perm, each⟩ := round.each
  obtain ⟨i, found⟩ := List.mem_iff_getElem?.mp (perm.mem_iff.mpr member)
  obtain ⟨t, here, refreshed⟩ := getElem?_of_forall₂ each.flip found
  exact ⟨t, List.mem_of_getElem? here, refreshed⟩

private theorem Round.runs (round : Round client tiers s w) {t : RefreshThread}
    (member : t ∈ w.threads) {tier : Tier} (refreshed : Refreshed s.1.plan tier t) :
    ∃ started r, Runs (run s.1.plan tier started) t.history r := by
  obtain ⟨started, origin⟩ := refreshed.origin
  obtain ⟨r, ended⟩ := refreshed.ended
  have after := (round.reached.after t member).2
  rw [origin, ended] at after
  exact ⟨started, r, runs_iff_after.mpr after⟩

private theorem Round.matched (round : Round client tiers s w) (round' : Round client tiers s u)
    (foreseen : Foreseen s.1 reply w) (foreseen' : Foreseen s.1 reply u) {t : RefreshThread}
    (member : t ∈ w.threads) :
    ∃ t' ∈ u.threads, stores s.1.slice t.history = stores s.1.slice t'.history := by
  obtain ⟨tier, configured, refreshed⟩ := round.exists_tier member
  obtain ⟨t', member', refreshed'⟩ := round'.exists_refreshed configured
  obtain ⟨started, r, runs⟩ := round.runs member refreshed
  obtain ⟨started', r', runs'⟩ := round'.runs member' refreshed'
  exact ⟨t', member', stores_unique runs (foreseen.told t member) runs' (foreseen'.told t' member')⟩

/-- Two rounds of the same tiers that begin in the same state leave the same values under the same
keys. -/
theorem Round.value?_eq (replies : Replies client reply) (accepts : s.1.storage.writeFails = false)
    (shares : Shares ranked s.1 tiers) (obliging : Obliging reply) (round : Round client tiers s w)
    (tells : Tells s.1 w.now) (round' : Round client tiers s u) (tells' : Tells s.1 u.now)
    (k : String) :
    w.state.1.storage.store.value? k = u.state.1.storage.store.value? k := by
  obtain ⟨order, perm, calm⟩ := round.calm tells
  obtain ⟨order', perm', calm'⟩ := round'.calm tells'
  have foreseen := Foreseen.reached replies accepts round.reached calm
  have foreseen' := Foreseen.reached replies accepts round'.reached calm'
  have contents := Contents.reached replies accepts (shares.perm perm) obliging round.reached calm
  have contents' :=
    Contents.reached replies accepts (shares.perm perm') obliging round'.reached calm'
  by_cases written : ∃ t ∈ w.threads, ∃ v, (stores s.1.slice t.history).get? k = some v
  · obtain ⟨t, member, v, left⟩ := written
    obtain ⟨t', member', same⟩ := round.matched round' foreseen foreseen' member
    rw [contents.written t member k v left, contents'.written t' member' k v (same ▸ left)]
  · have nothing : ∀ t ∈ w.threads, (stores s.1.slice t.history).get? k = none := by
      intro t member
      exact Option.eq_none_iff_forall_ne_some.mpr fun v left => written ⟨t, member, v, left⟩
    have nothing' : ∀ t ∈ u.threads, (stores s.1.slice t.history).get? k = none := by
      intro t member
      obtain ⟨t', member', same⟩ := round'.matched round foreseen' foreseen member
      rw [same]
      exact nothing t' member'
    rw [contents.untouched k nothing, contents'.untouched k nothing']

end Contents

end Refresh

end MarketFeed
