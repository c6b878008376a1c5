import Mathlib.Data.List.Induction
import MarketFeed.Proofs.Cache.Entries
/-!
That a store drops expired entries cannot be told from its answers. Beside the store that drops what
has expired when it is asked for or purged stands one that keeps everything; the entries that only
the second one has are expired, so both answer every read alike. What the second one has under a key
is what the latest write under that key has put there.
-/

set_option autoImplicit false
set_option relaxedAutoImplicit false

namespace MarketFeed.Cache

/-- What can be done to a store. -/
inductive Use where
  | set (data : Table Bytes) (ttl : Duration)
  | get (keys : List String)
  | purge

abbrev Uses := List (Instant × Use)

namespace Store

/-- A store after one use. A write whose expiry cannot be told changes nothing. -/
def used (s : Store) : Instant × Use → Store
  | (now, .set data ttl) => (s.set? now data ttl).getD s
  | (now, .get keys) => (s.get now keys).2
  | (now, .purge) => s.purge now

/-- A store after one use if neither reads nor purges drop anything. -/
def kept (s : Store) : Instant × Use → Store
  | (now, .set data ttl) => (s.set? now data ttl).getD s
  | _ => s

def after (uses : Uses) : Store := uses.foldl used empty

/-- A new store that never drops anything after some uses. -/
def keeping (uses : Uses) : Store := uses.foldl kept empty

end Store

/-- A use puts a value under a key that expires when the time to live is over. -/
def Wrote (u : Instant × Use) (k : String) (ttl : Duration) (v : Bytes) : Prop :=
  ∃ data, u.2 = .set data ttl ∧ data.get? k = some v ∧ Instant.after u.1 ttl < Instant.horizon

/-- The latest of the uses that put something under a key was at `stored`. -/
def LatestWrote (uses : Uses) (k : String) (stored : Instant) (ttl : Duration) (v : Bytes) : Prop :=
  ∃ before u later, uses = before ++ u :: later ∧ u.1 = stored ∧ Wrote u k ttl v ∧
    ∀ u' ∈ later, ∀ ttl' v', ¬ Wrote u' k ttl' v'

/-- One store is another one without some entries that have expired. -/
def Pruned (now : Instant) (s t : Store) : Prop :=
  ∀ k, s.entries.get? k = t.entries.get? k ∨
    s.entries.get? k = none ∧ ∃ e, t.entries.get? k = some e ∧ e.expires ≤ now

namespace Pruned

variable {now later : Instant} {s t : Store}

theorem refl (now : Instant) (s : Store) : Pruned now s s := fun _ => .inl rfl

theorem mono (pruned : Pruned now s t) (le : now ≤ later) : Pruned later s t := by
  intro k
  rcases pruned k with same | ⟨dropped, e, held, old⟩
  · exact .inl same
  · exact .inr ⟨dropped, e, held, Nat.le_trans old le⟩

theorem putAll (pruned : Pruned now s t) (data : Table Bytes) (expires : Instant) :
    Pruned now (s.putAll data expires) (t.putAll data expires) := by
  intro k
  rw [get?_putAll, get?_putAll]
  cases data.get? k with
  | some v => exact .inl rfl
  | none => exact pruned k

theorem drop (pruned : Pruned now s t) {s' : Store}
    (dropped : ∀ k, s'.entries.get? k = s.entries.get? k ∨
      s'.entries.get? k = (s.entries.get? k).filter fun e => decide (now < e.expires)) :
    Pruned now s' t := by
  intro k
  rcases dropped k with same | filtered
  · rw [same]
    exact pruned k
  · rw [filtered]
    rcases pruned k with same | ⟨gone, rest⟩
    · rw [same]
      cases held : t.entries.get? k with
      | none => exact .inl rfl
      | some e =>
        by_cases fresh : now < e.expires
        · exact .inl (Option.filter_some_pos (decide_eq_true fresh))
        · refine .inr ⟨Option.filter_some_neg (by simpa using fresh), e, rfl, ?_⟩
          exact Nat.le_of_not_lt fresh
    · rw [gone]
      exact .inr ⟨rfl, rest⟩

theorem used (pruned : Pruned now s t) (use : Use) :
    Pruned now (s.used (now, use)) (t.kept (now, use)) := by
  cases use with
  | set data ttl =>
    show Pruned now ((s.set? now data ttl).getD s) ((t.set? now data ttl).getD t)
    rw [Store.set?, Store.set?]
    cases Instant.after? now ttl with
    | none => exact pruned
    | some expires => exact pruned.putAll data expires
  | get keys =>
    refine pruned.drop fun k => ?_
    have left := get?_get s now keys k
    by_cases asked : k ∈ keys
    · exact .inr (left.trans (if_pos asked))
    · exact .inl (left.trans (if_neg asked))
  | purge =>
    refine pruned.drop fun k => .inr ?_
    exact Table.get?_filter s.entries _ k

theorem foldl {uses : Uses} {start : Instant} (pruned : Pruned start s t)
    (ordered : uses.Pairwise fun u w => u.1 ≤ w.1) (begins : ∀ u ∈ uses, start ≤ u.1)
    (past : ∀ u ∈ uses, u.1 ≤ now) (le : start ≤ now) :
    Pruned now (uses.foldl Store.used s) (uses.foldl Store.kept t) := by
  induction uses generalizing s t start with
  | nil => exact pruned.mono le
  | cons u rest ih =>
    obtain ⟨first, ordered'⟩ := List.pairwise_cons.mp ordered
    obtain ⟨time, use⟩ := u
    have step : Pruned time (s.used (time, use)) (t.kept (time, use)) :=
      (pruned.mono (begins _ List.mem_cons_self)).used use
    exact ih step ordered' first (fun u here => past u (List.mem_cons_of_mem _ here))
      (past _ List.mem_cons_self)

theorem live?_eq (pruned : Pruned now s t) (k : String) : s.live? now k = t.live? now k := by
  rw [Store.live?, Store.live?]
  rcases pruned k with same | ⟨gone, e, held, old⟩
  · rw [same]
  · rw [gone, held]
    exact (if_neg (Nat.not_lt.mpr old)).symm

theorem look_eq (pruned : Pruned now s t) (keys : List String) : s.look now keys = t.look now keys := by
  simp only [Store.look, pruned.live?_eq]

end Pruned

/-- After uses in order of time the store lacks expired entries only. -/
theorem pruned_after {uses : Uses} {now : Instant} (ordered : uses.Pairwise fun u w => u.1 ≤ w.1)
    (past : ∀ u ∈ uses, u.1 ≤ now) : Pruned now (Store.after uses) (Store.keeping uses) :=
  (Pruned.refl 0 Store.empty).foldl ordered (fun _ _ => Nat.zero_le _) past (Nat.zero_le now)

theorem get?_kept_of_wrote {u : Instant × Use} {k : String} {ttl : Duration} {v : Bytes}
    (wrote : Wrote u k ttl v) (s : Store) :
    (s.kept u).entries.get? k = some ⟨v, Instant.after u.1 ttl⟩ := by
  obtain ⟨now, use⟩ := u
  obtain ⟨data, rfl, value, told⟩ := wrote
  show ((s.set? now data ttl).getD s).entries.get? k = _
  rw [Store.set?, Instant.after?, if_pos told]
  exact (get?_putAll s data _ k).trans (by rw [value]; rfl)

theorem get?_kept_of_not_wrote {u : Instant × Use} {k : String}
    (silent : ∀ ttl v, ¬ Wrote u k ttl v) (s : Store) :
    (s.kept u).entries.get? k = s.entries.get? k := by
  obtain ⟨now, use⟩ := u
  cases use with
  | get keys => rfl
  | purge => rfl
  | set data ttl =>
    show ((s.set? now data ttl).getD s).entries.get? k = _
    rw [Store.set?, Instant.after?]
    split
    next told =>
      cases value : data.get? k with
      | some v => exact absurd ⟨data, rfl, value, told⟩ (silent ttl v)
      | none => exact (get?_putAll s data _ k).trans (by rw [value]; rfl)
    next => rfl

theorem latestWrote_concat {uses : Uses} {u : Instant × Use} {k : String} {stored : Instant}
    {ttl : Duration} {v : Bytes} :
    LatestWrote (uses ++ [u]) k stored ttl v ↔
      u.1 = stored ∧ Wrote u k ttl v ∨
        (∀ ttl' v', ¬ Wrote u k ttl' v') ∧ LatestWrote uses k stored ttl v := by
  constructor
  · rintro ⟨before, w, later, split, time, wrote, silent⟩
    rcases List.eq_nil_or_concat later with rfl | ⟨between, last, rfl⟩
    · obtain ⟨-, rfl⟩ := List.append_singleton_inj.mp split
      exact .inl ⟨time, wrote⟩
    · rw [List.concat_eq_append] at split silent
      have split' : uses ++ [u] = (before ++ w :: between) ++ [last] := by
        rw [split, List.append_assoc, List.cons_append]
      obtain ⟨rfl, rfl⟩ := List.append_singleton_inj.mp split'
      exact .inr ⟨silent u (by simp), before, w, between, rfl, time, wrote,
        fun u' here => silent u' (List.mem_append_left _ here)⟩
  · rintro (⟨time, wrote⟩ | ⟨silent, before, w, later, rfl, time, wrote, quiet⟩)
    · exact ⟨uses, u, [], rfl, time, wrote, by simp⟩
    · refine ⟨before, w, later ++ [u], by simp, time, wrote, fun u' here => ?_⟩
      rcases List.mem_append.mp here with earlier | last
      · exact quiet u' earlier
      · cases List.mem_singleton.mp last
        exact silent

/-- A store that never drops anything has under a key what the latest write has put there. -/
theorem get?_keeping {uses : Uses} {k : String} {e : Entry} :
    (Store.keeping uses).entries.get? k = some e ↔
      ∃ stored ttl, LatestWrote uses k stored ttl e.value ∧ e.expires = Instant.after stored ttl := by
  induction uses using List.reverseRecOn with
  | nil =>
    refine iff_of_false (by simp [Store.keeping, Store.empty]) ?_
    rintro ⟨_, _, ⟨before, u, later, split, _⟩, _⟩
    cases before <;> cases split
  | append_singleton uses u ih =>
    rw [show Store.keeping (uses ++ [u]) = (Store.keeping uses).kept u from List.foldl_append ..]
    simp only [latestWrote_concat]
    by_cases writes : ∃ ttl v, Wrote u k ttl v
    · obtain ⟨ttl, v, wrote⟩ := writes
      rw [get?_kept_of_wrote wrote]
      constructor
      · rintro ⟨⟩
        exact ⟨u.1, ttl, .inl ⟨rfl, wrote⟩, rfl⟩
      · rintro ⟨stored, ttl', ⟨rfl, wrote'⟩ | ⟨silent, _⟩, expires⟩
        · rw [← get?_kept_of_wrote wrote (Store.keeping uses), get?_kept_of_wrote wrote', ← expires]
        · exact absurd wrote (silent ttl v)
    · have silent : ∀ ttl v, ¬ Wrote u k ttl v := fun ttl v wrote => writes ⟨ttl, v, wrote⟩
      rw [get?_kept_of_not_wrote silent, ih]
      constructor
      · rintro ⟨stored, ttl, latest, expires⟩
        exact ⟨stored, ttl, .inr ⟨silent, latest⟩, expires⟩
      · rintro ⟨stored, ttl, ⟨_, wrote⟩ | ⟨_, latest⟩, expires⟩
        · exact absurd wrote (silent ttl _)
        · exact ⟨stored, ttl, latest, expires⟩

theorem live?_eq_some {s : Store} {now : Instant} {k : String} {v : Bytes} :
    s.live? now k = some v ↔ ∃ e, s.entries.get? k = some e ∧ e.value = v ∧ now < e.expires := by
  rw [Store.live?]
  cases s.entries.get? k with
  | none => simp
  | some e => by_cases fresh : now < e.expires <;> simp [fresh]

theorem missing_look (s : Store) (now : Instant) (keys : List String) :
    (s.look now keys).missing = keys.filter fun k => !(s.look now keys).found.contains k := by
  refine List.filter_congr fun k asked => ?_
  rw [Table.contains, get?_look, if_pos asked]
  cases s.live? now k <;> rfl

theorem get?_purge (s : Store) (now : Instant) (k : String) :
    (s.purge now).entries.get? k = (s.entries.get? k).filter fun e => decide (now < e.expires) :=
  Table.get?_filter s.entries _ k

theorem expiredCount_eq (s : Store) (now : Instant) :
    s.expiredCount now =
      (s.entries.keys.filter fun k => !(s.purge now).entries.contains k).length := by
  have removed : ∀ e ∈ s.entries.entries,
      (!(s.purge now).entries.contains e.1) = decide ¬ now < e.2.expires := by
    rintro ⟨k, e⟩ here
    rw [Table.contains, get?_purge, (Table.mem_entries_iff s.entries k e).mp here]
    by_cases fresh : now < e.expires <;> simp [Option.filter, fresh]
  have counted : (s.entries.keys.filter fun k => !(s.purge now).entries.contains k).length =
      s.entries.entries.countP fun e => decide ¬ now < e.2.expires := by
    rw [Table.keys, List.filter_map, List.length_map, List.countP_eq_length_filter]
    exact congrArg List.length (List.filter_congr removed)
  have parts := List.length_eq_countP_add_countP (fun e : String × Entry => decide (now < e.2.expires))
    (l := s.entries.entries)
  rw [counted]
  show s.entries.entries.length - (s.entries.entries.filter _).length = _
  rw [← List.countP_eq_length_filter, parts, Nat.add_sub_cancel_left]
  simp only [decide_eq_true_eq]

/-- **Expired entries are dropped unseen.** After uses in order of time, a read finds of the keys
asked for exactly those whose latest write has not expired, with what it wrote, and misses the others
in the order asked; so it answers like a store that has never dropped anything. A purge leaves the
entries that have not expired and counts the others. -/
theorem expiry_unobservable {uses : Uses} {now : Instant}
    (ordered : uses.Pairwise fun u w => u.1 ≤ w.1) (past : ∀ u ∈ uses, u.1 ≤ now) :
    (∀ keys, ((Store.after uses).get now keys).1 = ((Store.keeping uses).look now keys) ∧
      (∀ k v, ((Store.after uses).get now keys).1.found.get? k = some v ↔
        k ∈ keys ∧ ∃ stored ttl, LatestWrote uses k stored ttl v ∧ now < Instant.after stored ttl) ∧
      ((Store.after uses).get now keys).1.missing =
        keys.filter fun k => !((Store.after uses).get now keys).1.found.contains k) ∧
    (∀ k e, ((Store.after uses).purge now).entries.get? k = some e ↔
      (Store.after uses).entries.get? k = some e ∧ now < e.expires) ∧
    (Store.after uses).expiredCount now = ((Store.after uses).entries.keys.filter fun k =>
      !((Store.after uses).purge now).entries.contains k).length := by
  have pruned : Pruned now (Store.after uses) (Store.keeping uses) := pruned_after ordered past
  refine ⟨fun keys => ⟨pruned.look_eq keys, fun k v => ?_, missing_look _ now keys⟩, fun k e => ?_,
    expiredCount_eq _ now⟩
  · show ((Store.after uses).look now keys).found.get? k = some v ↔ _
    rw [get?_look, pruned.live?_eq]
    by_cases asked : k ∈ keys
    · rw [if_pos asked, live?_eq_some]
      constructor
      · rintro ⟨e, held, rfl, fresh⟩
        obtain ⟨stored, ttl, latest, expires⟩ := get?_keeping.mp held
        exact ⟨asked, stored, ttl, latest, expires ▸ fresh⟩
      · rintro ⟨-, stored, ttl, latest, fresh⟩
        exact ⟨⟨v, Instant.after stored ttl⟩, get?_keeping.mpr ⟨stored, ttl, latest, rfl⟩, rfl, fresh⟩
    · rw [if_neg asked]
      exact iff_of_false nofun fun found => asked found.1
  · rw [get?_purge, Option.filter_eq_some_iff, decide_eq_true_eq]

def overwritten : Uses :=
  [(0, .set (Table.empty.insert "btc" [49]) (Duration.ofSeconds 10)),
    (nanosPerSecond, .set (Table.empty.insert "btc" [50]) (Duration.ofSeconds 5)),
    (4 * nanosPerSecond, .get ["btc", "eth"]), (5 * nanosPerSecond, .purge)]

theorem expiry_unobservable_overwritten :
    ((Store.after overwritten).get (6 * nanosPerSecond - 1) ["btc"]).1.found.get? "btc" =
        some [50] ∧
      ((Store.after overwritten).get (6 * nanosPerSecond) ["btc", "eth", "btc"]).1 =
        (Store.keeping overwritten).look (6 * nanosPerSecond) ["btc", "eth", "btc"] := by
  have latest : LatestWrote overwritten "btc" nanosPerSecond (Duration.ofSeconds 5) [50] := by
    refine ⟨[_], _, [_, _], rfl, rfl, ⟨_, rfl, by decide, by decide⟩, ?_⟩
    rintro u here ttl v ⟨data, writes, -⟩
    rw [List.mem_cons, List.mem_singleton] at here
    rcases here with rfl | rfl <;> cases writes
  constructor
  · exact ((expiry_unobservable (by decide) (by decide)).1 ["btc"]).2.1 "btc" _ |>.mpr
      ⟨by decide, nanosPerSecond, Duration.ofSeconds 5, latest, by decide⟩
  · exact ((expiry_unobservable (by decide) (by decide)).1 _).1

end MarketFeed.Cache
