import MarketFeed.Proofs.Cache.Expiry
import MarketFeed.Proofs.Cache.RoundTrip
/-!
Reading one payload through the cache. Whatever the cache holds and whatever the client answers, a
payload that lives is returned without asking anyone; one that does not is fetched once, and either
stored for later reads or the call fails and nobody can tell that it was made.
-/

set_option autoImplicit false
set_option relaxedAutoImplicit false

namespace MarketFeed

namespace Cache

/-- From `start` on nobody can tell two stores apart: whatever both are used for, a lookup in any part
of them finds the same. -/
def Indistinct (start : Instant) (s t : Store) : Prop :=
  ∀ (uses : Uses) (now : Instant), uses.Pairwise (fun u w => u.1 ≤ w.1) →
    (∀ u ∈ uses, start ≤ u.1 ∧ u.1 ≤ now) → start ≤ now → ∀ (other : Slice) (ids : List String),
      (other.read (uses.foldl Store.used s) now ids).1 =
        (other.read (uses.foldl Store.used t) now ids).1

theorem read_eq_of_live? {s t : Store} {now : Instant} (same : ∀ k, s.live? now k = t.live? now k)
    (slice : Slice) (ids : List String) : (slice.read s now ids).1 = (slice.read t now ids).1 := by
  simp only [Slice.read, Store.get, Store.look, same]

/-- The lack of entries that have expired cannot be told. -/
theorem Pruned.indistinct {start : Instant} {s t : Store} (pruned : Pruned start s t) :
    Indistinct start s t := by
  intro uses now ordered within begun other ids
  have begins : ∀ u ∈ uses, start ≤ u.1 := fun u here => (within u here).1
  have past : ∀ u ∈ uses, u.1 ≤ now := fun u here => (within u here).2
  have left := pruned.foldl ordered begins past begun
  have right := (Pruned.refl start t).foldl ordered begins past begun
  exact read_eq_of_live? (fun k => (left.live?_eq k).trans (right.live?_eq k).symm) other ids

theorem pruned_read (slice : Slice) (store : Store) (now : Instant) (ids : List String) :
    Pruned now (slice.read store now ids).2 store := by
  refine (Pruned.refl now store).drop fun k => ?_
  have left := get?_get store now (ids.eraseDups.map (key slice.scope)) k
  by_cases asked : k ∈ ids.eraseDups.map (key slice.scope)
  · exact .inr (left.trans (if_pos asked))
  · exact .inl (left.trans (if_neg asked))

theorem live?_foldl {s : Store} {uses : Uses} {start now : Instant} {k : String} {e : Entry}
    (held : s.entries.get? k = some e) (ordered : uses.Pairwise fun u w => u.1 ≤ w.1)
    (within : ∀ u ∈ uses, start ≤ u.1 ∧ u.1 ≤ now) (begun : start ≤ now)
    (silent : ∀ u ∈ uses, ∀ ttl v, ¬ Wrote u k ttl v) (fresh : now < e.expires) :
    (uses.foldl Store.used s).live? now k = some e.value := by
  have kept : ∀ (uses : Uses) (t : Store), (∀ u ∈ uses, ∀ ttl v, ¬ Wrote u k ttl v) →
      t.entries.get? k = some e → (uses.foldl Store.kept t).entries.get? k = some e := by
    intro uses
    induction uses with
    | nil => exact fun _ _ held => held
    | cons u rest ih =>
      intro t silent held
      have ⟨first, others⟩ := List.forall_mem_cons.mp silent
      exact ih _ others ((get?_kept_of_not_wrote first t).trans held)
  have pruned := (Pruned.refl start s).foldl ordered (fun u here => (within u here).1)
    (fun u here => (within u here).2) begun
  rw [pruned.live?_eq]
  exact live?_eq_some.mpr ⟨e, kept uses s silent held, rfl, fresh⟩

end Cache

namespace Feed

open Cache

/-- The circumstances of one read of a feed: when the cache is read and with what error if it refuses,
what the client answers and what the store is used for by others until then, and when the cache is
written and with what error if it refuses. -/
structure Visit where
  now : Instant
  readFault : Option RefreshError
  reply : List String → Except FetchError Payloads
  meanwhile : Uses
  later : Instant
  writeFault : Option RefreshError

/-- What a read leaves in the store, which identifiers it asked the client for, call by call, and its
result, if it does not break down. -/
structure Visited (α : Type) where
  store : Store
  fetched : List (List String)
  result : Option α

def Visited.of {α : Type} (r : (Store × List (List String)) × Option α) : Visited α :=
  ⟨r.1.1, r.1.2, r.2⟩

namespace Visit

def met (v : Visit) (store : Store) : Store := v.meanwhile.foldl Store.used store

def answer (v : Visit) (slice : Slice) : Store × List (List String) → (op : readings.Op) →
    (Store × List (List String)) × Option (readings.Answer op)
  | (store, fetched), .inl (.read ids) =>
    match v.readFault with
    | some e => ((store, fetched), some (.error e : Except RefreshError Lookup))
    | none =>
      let r := slice.read store v.now ids
      ((r.2, fetched), some (.ok r.1 : Except RefreshError Lookup))
  | (store, fetched), .inl (.write data) =>
    if data.isEmpty then ((store, fetched), some (.ok () : Except RefreshError Unit))
    else match v.writeFault, slice.write? store v.later data with
      | some e, _ => ((store, fetched), some (.error e : Except RefreshError Unit))
      | none, some store => ((store, fetched), some (.ok () : Except RefreshError Unit))
      | none, none => ((store, fetched), none)
  | (store, fetched), .inr (.chunk ids) =>
    ((v.met store, fetched ++ [ids]), some (v.reply ids : Except FetchError Payloads))

def run {α : Type} (v : Visit) (slice : Slice) (p : Program readings α) (store : Store) : Visited α :=
  .of (p.run? (v.answer slice) (store, []))

end Visit

variable {slice : Slice} {store : Store} {v : Visit} {id : String}

/-! ### What one read does -/

private theorem run?_answered {σ α : Type} {S : Signature}
    {answer : σ → (op : S.Op) → σ × Option (S.Answer op)} {op : S.Op}
    {next : S.Answer op → Program S α} {s s' : σ} {r : S.Answer op}
    (answered : answer s op = (s', some r)) :
    (Program.ask op next).run? answer s = (next r).run? answer s' := by
  rw [Program.run?, answered]

private theorem run?_unanswered {σ α : Type} {S : Signature}
    {answer : σ → (op : S.Op) → σ × Option (S.Answer op)} {op : S.Op}
    {next : S.Answer op → Program S α} {s s' : σ} (unanswered : answer s op = (s', none)) :
    (Program.ask op next).run? answer s = (s', none) := by
  rw [Program.run?, unanswered]

def fetchOne (id : String) : Program readings (Except RefreshError (Bytes × Status)) :=
  .ask (.inr (.chunk [id])) fun (reply : Except FetchError Payloads) =>
    match reply with
    | .error e => .done (.error (.fetch e))
    | .ok data =>
      match data.get? id with
      | none => .done (.error (.notFound id))
      | some bytes =>
        .ask (.inl (.write (Table.empty.insert id bytes))) fun (taken : Except RefreshError Unit) =>
          .done (taken.map fun _ => (bytes, .miss))

def goOn (readThrough : Bool) (id : String) :
    Except RefreshError Lookup → Program readings (Except RefreshError (Bytes × Status))
  | .error e => .done (.error e)
  | .ok lookup =>
    match lookup.found.get? id with
    | some bytes => .done (.ok (bytes, .full))
    | none => if readThrough then fetchOne id else .done (.error (.notFound id))

theorem get_eq (readThrough : Bool) (id : String) :
    get readThrough id = .ask (.inl (.read [id])) (goOn readThrough id) := by
  cases readThrough with
  | false =>
    refine congrArg (Program.ask _) (funext fun (r : Except RefreshError Lookup) => ?_)
    cases r with
    | error e => rfl
    | ok lookup =>
      dsimp only [Program.bind]
      split <;> rename_i found <;> simp only [goOn, found] <;> rfl
  | true =>
    refine congrArg (Program.ask _) (funext fun (r : Except RefreshError Lookup) => ?_)
    cases r with
    | error e => rfl
    | ok lookup =>
      dsimp only [Program.bind]
      split <;> rename_i found <;> simp only [goOn, found]
      · rfl
      · rw [if_pos trivial]
        refine congrArg (Program.ask _) (funext fun (reply : Except FetchError Payloads) => ?_)
        cases reply with
        | error e => rfl
        | ok data =>
          dsimp only [Program.bind, Program.lift]
          cases data.get? id with
          | none => rfl
          | some bytes =>
            refine congrArg (Program.ask _) (funext fun (taken : Except RefreshError Unit) => ?_)
            cases taken <;> rfl

theorem run_get_refused {e : RefreshError} (refused : v.readFault = some e) (readThrough : Bool) :
    v.run slice (get readThrough id) store = ⟨store, [], some (.error e)⟩ := by
  have answered : v.answer slice (store, []) (.inl (.read [id])) =
      ((store, []), some (.error e : Except RefreshError Lookup)) := by
    simp only [Visit.answer, refused]
    rfl
  rw [get_eq]
  exact congrArg Visited.of (run?_answered (S := readings) answered)

private theorem run_get (accepts : v.readFault = none) (readThrough : Bool) :
    v.run slice (get readThrough id) store =
      v.run slice (goOn readThrough id (.ok (slice.read store v.now [id]).1))
        (slice.read store v.now [id]).2 := by
  have answered : v.answer slice (store, []) (.inl (.read [id])) =
      (((slice.read store v.now [id]).2, []),
        some (.ok (slice.read store v.now [id]).1 : Except RefreshError Lookup)) := by
    simp only [Visit.answer, accepts]
    rfl
  rw [get_eq]
  exact congrArg Visited.of (run?_answered answered)

private theorem get?_read_single (slice : Slice) (store : Store) (now : Instant) (id : String) :
    (slice.read store now [id]).1.found.get? id = store.live? now (key slice.scope id) :=
  (get?_read slice store now [id] id).trans (if_pos (List.mem_singleton_self id))

theorem run_get_live (accepts : v.readFault = none) {bytes : Bytes}
    (lives : store.live? v.now (key slice.scope id) = some bytes) (readThrough : Bool) :
    v.run slice (get readThrough id) store =
      ⟨(slice.read store v.now [id]).2, [], some (.ok (bytes, .full))⟩ := by
  have found := (get?_read_single slice store v.now id).trans lives
  rw [run_get accepts]
  simp only [goOn, found]
  rfl

private theorem run_get_missing (accepts : v.readFault = none)
    (missing : store.live? v.now (key slice.scope id) = none) (readThrough : Bool) :
    v.run slice (get readThrough id) store =
      v.run slice (if readThrough then fetchOne id else .done (.error (.notFound id)))
        (slice.read store v.now [id]).2 := by
  have found := (get?_read_single slice store v.now id).trans missing
  rw [run_get accepts]
  simp only [goOn, found]

def Visit.fetched (v : Visit) (slice : Slice) (id : String) (met : Store) :
    Visited (Except RefreshError (Bytes × Status)) :=
  match v.reply [id] with
  | .error e => ⟨met, [[id]], some (.error (.fetch e))⟩
  | .ok data =>
    match data.get? id with
    | none => ⟨met, [[id]], some (.error (.notFound id))⟩
    | some bytes =>
      match v.writeFault, slice.write? met v.later (Table.empty.insert id bytes) with
      | some e, _ => ⟨met, [[id]], some (.error e)⟩
      | none, some store => ⟨store, [[id]], some (.ok (bytes, .miss))⟩
      | none, none => ⟨met, [[id]], none⟩

private theorem isEmpty_single (id : String) (bytes : Bytes) :
    (Table.empty.insert id bytes).isEmpty = false :=
  Table.isEmpty_of_get? ((Table.get?_insert _ _ _ _).trans (if_pos rfl))

theorem run_fetchOne (v : Visit) (slice : Slice) (id : String) (store : Store) :
    v.run slice (fetchOne id) store = v.fetched slice id (v.met store) := by
  have asked : v.answer slice (store, []) (.inr (.chunk [id])) =
      ((v.met store, [[id]]), some (v.reply [id] : Except FetchError Payloads)) := rfl
  refine (congrArg Visited.of (run?_answered asked)).trans ?_
  unfold Visit.fetched
  cases v.reply [id] with
  | error e => rfl
  | ok data =>
    dsimp only
    cases data.get? id with
    | none => rfl
    | some bytes =>
      have full := isEmpty_single id bytes
      have written : v.answer slice (v.met store, [[id]])
          (.inl (.write (Table.empty.insert id bytes))) =
          match v.writeFault, slice.write? (v.met store) v.later (Table.empty.insert id bytes) with
          | some e, _ => ((v.met store, [[id]]), some (.error e : Except RefreshError Unit))
          | none, some store => ((store, [[id]]), some (.ok () : Except RefreshError Unit))
          | none, none => ((v.met store, [[id]]), none) := by
        simp only [Visit.answer, full]
        rfl
      dsimp only
      cases fault : v.writeFault with
      | some e =>
        rw [fault] at written
        exact congrArg Visited.of (run?_answered (S := readings) written)
      | none =>
        rw [fault] at written
        cases stored : slice.write? (v.met store) v.later (Table.empty.insert id bytes) with
        | none =>
          rw [stored] at written
          exact congrArg Visited.of (run?_unanswered (S := readings) written)
        | some store' =>
          rw [stored] at written
          exact congrArg Visited.of (run?_answered (S := readings) written)

theorem fetched_once (v : Visit) (slice : Slice) (id : String) (met : Store) :
    (v.fetched slice id met).fetched = [[id]] := by
  unfold Visit.fetched
  split
  · rfl
  · split
    · rfl
    · split <;> rfl

theorem run_getMultiple (accepts : v.readFault = none) (ids : List String) :
    v.run slice (getMultiple ids) store =
      ⟨(slice.read store v.now ids).2, [], some (.ok (slice.read store v.now ids).1)⟩ := by
  have answered : v.answer slice (store, []) (.inl (.read ids)) =
      (((slice.read store v.now ids).2, []),
        some (.ok (slice.read store v.now ids).1 : Except RefreshError Lookup)) := by
    simp only [Visit.answer, accepts]
    rfl
  exact congrArg Visited.of (run?_answered (S := readings) answered)

/-! ### What a read is to others -/

/-- Nobody can tell that a call was made. What the cache left when it was read cannot be told from what
it held before, and the call leaves that, as others have used it meanwhile. -/
structure Unnoticed (v : Visit) (slice : Slice) (id : String) (store : Store)
    (c : Visited (Except RefreshError (Bytes × Status))) : Prop where
  read : Indistinct v.now (slice.read store v.now [id]).2 store
  left : c.store = if c.fetched = [] then (slice.read store v.now [id]).2
    else v.met (slice.read store v.now [id]).2

structure Fails (v : Visit) (slice : Slice) (id : String) (store : Store)
    (c : Visited (Except RefreshError (Bytes × Status))) (e : RefreshError) : Prop
    extends Unnoticed v slice id store c where
  result : c.result = some (.error e)

/-- One store is another one with one more entry, which expires one time to live after `now`. -/
structure Deposits (slice : Slice) (now : Instant) (id : String) (bytes : Bytes)
    (before after : Store) : Prop where
  entry : after.entries.get? (key slice.scope id) = some ⟨bytes, Instant.after now slice.ttl⟩
  others : ∀ k, k ≠ key slice.scope id → after.entries.get? k = before.entries.get? k

/-- Every read of an identifier from `start` on and before `expires` finds its payload in the store and
asks the client for nothing, as long as nobody writes anything else in its place. A read of many
identifiers is full if all the others live as well. -/
def Serves (slice : Slice) (id : String) (bytes : Bytes) (start expires : Instant) (store : Store) :
    Prop :=
  ∀ (uses : Uses) (v : Visit), uses.Pairwise (fun u w => u.1 ≤ w.1) →
    (∀ u ∈ uses, start ≤ u.1 ∧ u.1 ≤ v.now) → start ≤ v.now → v.now < expires →
    (∀ u ∈ uses, ∀ ttl other, ¬ Wrote u (key slice.scope id) ttl other) → v.readFault = none →
    (∀ readThrough, ∃ left, v.run slice (get readThrough id) (uses.foldl Store.used store) =
      ⟨left, [], some (.ok (bytes, .full))⟩) ∧
    ∀ ids, id ∈ ids → ∃ left lookup,
      v.run slice (getMultiple ids) (uses.foldl Store.used store) = ⟨left, [], some (.ok lookup)⟩ ∧
      lookup.found.get? id = some bytes ∧
      ((∀ other ∈ ids, other = id ∨
        ((uses.foldl Store.used store).live? v.now (key slice.scope other)).isSome = true) →
          lookup.status = .full)

theorem serves_of_entry {bytes : Bytes} {start expires : Instant}
    (held : store.entries.get? (key slice.scope id) = some ⟨bytes, expires⟩) :
    Serves slice id bytes start expires store := by
  intro uses v ordered within begun fresh silent accepts
  have lives := live?_foldl held ordered within begun silent fresh
  refine ⟨fun readThrough => ⟨_, run_get_live accepts lives readThrough⟩, fun ids asked => ?_⟩
  have accounts := accounts_read slice (uses.foldl Store.used store) v.now ids
  refine ⟨_, _, run_getMultiple accepts ids, (accounts.agrees id asked).trans lives, fun all => ?_⟩
  refine accounts.full.mpr (List.eq_nil_iff_forall_not_mem.mpr fun other missing => ?_)
  have asked' := (accounts.whole other).mpr (.inr missing)
  have alive : ((uses.foldl Store.used store).live? v.now (key slice.scope other)).isSome = true := by
    rcases all other asked' with rfl | alive
    · rw [lives]
      rfl
    · exact alive
  refine accounts.disjoint other ⟨?_, missing⟩
  rw [Table.contains, accounts.agrees other asked']
  exact alive

theorem write?_single {now : Instant} (tells : Instant.after now slice.ttl < Instant.horizon)
    (store : Store) (id : String) (bytes : Bytes) :
    ∃ store', slice.write? store now (Table.empty.insert id bytes) = some store' ∧
      Deposits slice now id bytes store store' := by
  obtain ⟨store', written, entries⟩ := write?_of_tellable tells store (Table.empty.insert id bytes)
  refine ⟨store', written, ?_, fun k other => ?_⟩
  · rw [entries, get?_keyed_key, Table.get?_insert, if_pos rfl]
    rfl
  · rw [entries]
    cases found : (slice.keyed (Table.empty.insert id bytes)).get? k with
    | none => rfl
    | some b =>
      obtain ⟨id', here, held⟩ := get?_keyed found
      rw [Table.get?_insert] at held
      split at held
      · rename_i same
        exact absurd (same ▸ here) other
      · cases held

theorem write?_single_eq_none {now : Instant}
    (untold : ¬ Instant.after now slice.ttl < Instant.horizon) (store : Store) (id : String)
    (bytes : Bytes) : slice.write? store now (Table.empty.insert id bytes) = none := by
  rw [Slice.write?, isEmpty_single, Store.set?, Instant.after?, if_neg untold]
  rfl

theorem unnoticed_of {c : Visited (Except RefreshError (Bytes × Status))}
    (left : c.store = if c.fetched = [] then (slice.read store v.now [id]).2
      else v.met (slice.read store v.now [id]).2) : Unnoticed v slice id store c :=
  ⟨(pruned_read slice store v.now [id]).indistinct, left⟩

/-- A read of one payload. A cache that cannot be read makes it fail. A payload that lives is returned,
and nobody else is asked; neither is if the feed does not read through, and then a payload that does not
live is not found. If it does, the client is asked once and for nothing else; what it answers is stored
and returned, and found by every read until it expires; an answer without the identifier or an error, or
a cache that cannot be written, makes the call fail as if it had not been made. -/
theorem get_through_cache (slice : Slice) (store : Store) (v : Visit) (id : String) :
    (∀ e, v.readFault = some e → ∀ readThrough,
      v.run slice (get readThrough id) store = ⟨store, [], some (.error e)⟩) ∧
    (v.readFault = none → ∀ bytes, store.live? v.now (key slice.scope id) = some bytes →
      ∀ readThrough, (v.run slice (get readThrough id) store).result = some (.ok (bytes, .full)) ∧
        (v.run slice (get readThrough id) store).fetched = [] ∧
        Unnoticed v slice id store (v.run slice (get readThrough id) store)) ∧
    (v.readFault = none → store.live? v.now (key slice.scope id) = none →
      (v.run slice (get false id) store).fetched = [] ∧
      Fails v slice id store (v.run slice (get false id) store) (.notFound id) ∧
      (v.run slice (get true id) store).fetched = [[id]] ∧
      (∀ e, v.reply [id] = .error e →
        Fails v slice id store (v.run slice (get true id) store) (.fetch e)) ∧
      (∀ data, v.reply [id] = .ok data → data.get? id = none →
        Fails v slice id store (v.run slice (get true id) store) (.notFound id)) ∧
      ∀ data bytes, v.reply [id] = .ok data → data.get? id = some bytes →
        (∀ e, v.writeFault = some e →
          Fails v slice id store (v.run slice (get true id) store) e) ∧
        (v.writeFault = none → ¬ Instant.after v.later slice.ttl < Instant.horizon →
          (v.run slice (get true id) store).result = none ∧
          Unnoticed v slice id store (v.run slice (get true id) store)) ∧
        (v.writeFault = none → Instant.after v.later slice.ttl < Instant.horizon →
          (v.run slice (get true id) store).result = some (.ok (bytes, .miss)) ∧
          Deposits slice v.later id bytes (v.met (slice.read store v.now [id]).2)
            (v.run slice (get true id) store).store ∧
          Serves slice id bytes v.later (Instant.after v.later slice.ttl)
            (v.run slice (get true id) store).store)) := by
  refine ⟨fun e refused => run_get_refused refused, fun accepts bytes lives readThrough => ?_,
    fun accepts missing => ?_⟩
  · rw [run_get_live accepts lives]
    exact ⟨rfl, rfl, unnoticed_of rfl⟩
  have off : v.run slice (get false id) store =
      ⟨(slice.read store v.now [id]).2, [], some (.error (.notFound id))⟩ :=
    run_get_missing accepts missing false
  have on : v.run slice (get true id) store =
      v.fetched slice id (v.met (slice.read store v.now [id]).2) :=
    (run_get_missing accepts missing true).trans (run_fetchOne v slice id _)
  have fails : ∀ e, v.fetched slice id (v.met (slice.read store v.now [id]).2) =
      ⟨v.met (slice.read store v.now [id]).2, [[id]], some (.error e)⟩ →
        Fails v slice id store (v.fetched slice id (v.met (slice.read store v.now [id]).2)) e := by
    intro e failed
    rw [failed]
    exact ⟨unnoticed_of rfl, rfl⟩
  rw [off, on]
  refine ⟨rfl, ⟨unnoticed_of rfl, rfl⟩, fetched_once .., fun e failed => fails _ ?_,
    fun data replied absent => fails _ ?_, fun data bytes replied present =>
      ⟨fun e refused => fails _ ?_, fun accepts untold => ?_, fun accepts tells => ?_⟩⟩
  · simp only [Visit.fetched, failed]
  · simp only [Visit.fetched, replied, absent]
  · simp only [Visit.fetched, replied, present, refused]
  · have lost := write?_single_eq_none untold (v.met (slice.read store v.now [id]).2) id bytes
    simp only [Visit.fetched, replied, present, accepts, lost]
    exact ⟨trivial, unnoticed_of rfl⟩
  · obtain ⟨store', stored, deposits⟩ :=
      write?_single tells (v.met (slice.read store v.now [id]).2) id bytes
    simp only [Visit.fetched, replied, present, accepts, stored]
    exact ⟨trivial, deposits, serves_of_entry deposits.entry⟩

def firstVisit : Visit where
  now := 0
  readFault := none
  reply ids := .ok (Table.ofList ((ids ++ ["eth"]).map fun id => (id, [49])))
  meanwhile := [(1, .get [key "prices" "eth"])]
  later := nanosPerSecond
  writeFault := none

theorem get_through_cache_firstVisit :
    firstVisit.readFault = none ∧ Store.empty.live? firstVisit.now (key "prices" "btc") = none ∧
      (firstVisit.run minutely (get true "btc") Store.empty).fetched = [["btc"]] ∧
      (firstVisit.run minutely (get true "btc") Store.empty).result =
        some (.ok ([49], .miss)) ∧
      ∃ left, { firstVisit with now := 60 * nanosPerSecond }.run minutely (get false "btc")
        (firstVisit.run minutely (get true "btc") Store.empty).store =
          ⟨left, [], some (.ok ([49], .full))⟩ := by
  have missing : Store.empty.live? firstVisit.now (key "prices" "btc") = none := rfl
  obtain ⟨-, -, fetched, -, -, answered⟩ :=
    (get_through_cache minutely Store.empty firstVisit "btc").2.2 rfl missing
  have replied : firstVisit.reply ["btc"] = .ok (Table.ofList [("btc", [49]), ("eth", [49])]) := rfl
  obtain ⟨-, -, stored⟩ := answered _ [49] replied (by decide +kernel)
  obtain ⟨result, -, serves⟩ := stored rfl (by decide)
  have later := (serves [] { firstVisit with now := 60 * nanosPerSecond } .nil nofun (by decide)
    (by decide) nofun rfl).1 false
  exact ⟨rfl, missing, fetched, result, later⟩

end Feed

end MarketFeed
