import Mathlib.Data.List.Induction
import MarketFeed.Proofs.Cache.Isolation
/-!
What a slice reads right after it has written. A read sorts the identifiers asked for into those found
and those missing, each once; after a write those found have what was written, and what the store held
before where nothing was written.
-/

set_option autoImplicit false
set_option relaxedAutoImplicit false

namespace MarketFeed.Cache

namespace Status

variable {found missing : Nat}

theorem classify_eq_full_iff : classify found missing = .full ↔ missing = 0 := by
  unfold classify
  split
  · exact iff_of_true rfl ‹_›
  · split <;> exact iff_of_false nofun ‹_›

theorem classify_eq_miss_iff : classify found missing = .miss ↔ found = 0 ∧ missing ≠ 0 := by
  unfold classify
  split
  · exact iff_of_false nofun fun both => both.2 ‹_›
  · split
    · exact iff_of_true rfl ⟨‹_›, ‹_›⟩
    · exact iff_of_false nofun fun both => absurd both.1 ‹_›

theorem classify_eq_partly_iff : classify found missing = .partly ↔ found ≠ 0 ∧ missing ≠ 0 := by
  unfold classify
  split
  · exact iff_of_false nofun fun both => both.2 ‹_›
  · split
    · exact iff_of_false nofun fun both => both.1 ‹_›
    · exact iff_of_true rfl ⟨‹_›, ‹_›⟩

end Status

theorem pairwise_idxOf_eraseDups (ids : List String) :
    ids.eraseDups.Pairwise fun a b => ids.idxOf a < ids.idxOf b := by
  induction ids using List.reverseRecOn with
  | nil => exact List.Pairwise.nil
  | append_singleton ids last ih =>
    have stays : ∀ {id : String}, id ∈ ids → (ids ++ [last]).idxOf id = ids.idxOf id :=
      fun member => List.idxOf_append.trans (if_pos member)
    have earlier : ids.eraseDups.Pairwise fun a b =>
        (ids ++ [last]).idxOf a < (ids ++ [last]).idxOf b := by
      refine ih.imp_of_mem fun here there before => ?_
      rw [stays (List.mem_eraseDups.mp here), stays (List.mem_eraseDups.mp there)]
      exact before
    rw [List.eraseDups_append]
    by_cases again : last ∈ ids
    · have known : [last].removeAll ids = [] := by simp [List.removeAll, again]
      rw [known]
      exact (List.append_nil _).symm ▸ earlier
    · have fresh : [last].removeAll ids = [last] := by simp [List.removeAll, again]
      rw [fresh]
      refine List.pairwise_append.mpr ⟨earlier, List.pairwise_singleton _ _, fun a here b there => ?_⟩
      have member := List.mem_eraseDups.mp here
      rw [List.mem_singleton.mp there, stays member, List.idxOf_append, if_neg again]
      exact Nat.lt_add_left _ (List.idxOf_lt_length_iff.mpr member)

/-- What a read of some identifiers tells when `held` is what there is under each: every one of them is
either found or missing, the missing ones stand once each in the order in which they are first asked
for, and the status says whether nothing is missing, or nothing found, or neither. -/
structure Accounts (held : String → Option Bytes) (ids : List String) (l : Lookup) : Prop where
  disjoint : ∀ id, ¬ (l.found.contains id = true ∧ id ∈ l.missing)
  whole : ∀ id, id ∈ ids ↔ l.found.contains id = true ∨ id ∈ l.missing
  agrees : ∀ id ∈ ids, l.found.get? id = held id
  once : l.missing.Nodup
  order : l.missing.Pairwise fun a b => ids.idxOf a < ids.idxOf b
  full : l.status = .full ↔ l.missing = []
  miss : l.status = .miss ↔ l.found = ∅ ∧ l.missing ≠ []
  partly : l.status = .partly ↔ l.found ≠ ∅ ∧ l.missing ≠ []

theorem Accounts.congr {held held' : String → Option Bytes} {ids : List String} {l : Lookup}
    (accounts : Accounts held ids l) (same : ∀ id ∈ ids, held id = held' id) :
    Accounts held' ids l :=
  { accounts with agrees := fun id asked => (accounts.agrees id asked).trans (same id asked) }

theorem missing_read (s : Slice) (store : Store) (now : Instant) (ids : List String) :
    (s.read store now ids).1.missing =
      ids.eraseDups.filter fun id => (store.live? now (key s.scope id)).isNone := by
  refine List.filter_congr fun id asked => ?_
  have under : key s.scope id ∈ ids.eraseDups.map (key s.scope) := List.mem_map_of_mem asked
  exact congrArg Option.isNone ((get?_look store now _ _).trans (if_pos under))

theorem ofList_filterMap_eq_empty_iff (held : String → Option Bytes) (ids : List String) :
    Table.ofList (ids.filterMap fun id => (held id).map fun v => (id, v)) = ∅ ↔
      ids.filterMap (fun id => (held id).map fun v => (id, v)) = [] := by
  constructor
  · intro nothing
    refine List.filterMap_eq_nil_iff.mpr fun id asked => Option.map_eq_none_iff.mpr ?_
    have found := Table.get?_ofList_filterMap held ids id
    rw [nothing, Table.get?_empty, if_pos asked] at found
    exact found.symm
  · intro nothing
    rw [nothing]
    rfl

theorem accounts_read (s : Slice) (store : Store) (now : Instant) (ids : List String) :
    Accounts (fun id => store.live? now (key s.scope id)) ids (s.read store now ids).1 := by
  have found := get?_read s store now ids
  have missing := missing_read s store now ids
  have status : (s.read store now ids).1.status = Status.classify
      (ids.eraseDups.filterMap fun id =>
        ((store.get now (ids.eraseDups.map (key s.scope))).1.found.get? (key s.scope id)).map
          fun v => (id, v)).length
      (s.read store now ids).1.missing.length := rfl
  have table := ofList_filterMap_eq_empty_iff (fun id =>
    (store.get now (ids.eraseDups.map (key s.scope))).1.found.get? (key s.scope id)) ids.eraseDups
  have order : (s.read store now ids).1.missing.Pairwise fun a b => ids.idxOf a < ids.idxOf b := by
    rw [missing]
    exact (pairwise_idxOf_eraseDups ids).filter _
  have lacks : ∀ id, id ∈ (s.read store now ids).1.missing ↔
      id ∈ ids ∧ store.live? now (key s.scope id) = none := by
    intro id
    rw [missing, List.mem_filter, List.mem_eraseDups, Option.isNone_iff_eq_none]
  have holds : ∀ id, (s.read store now ids).1.found.contains id = true ↔
      id ∈ ids ∧ store.live? now (key s.scope id) ≠ none := by
    intro id
    rw [Table.contains, found, Option.isSome_iff_ne_none]
    by_cases asked : id ∈ ids <;> simp [asked]
  exact {
    disjoint := fun id both => ((holds id).mp both.1).2 ((lacks id).mp both.2).2
    whole := by
      intro id
      rw [holds, lacks, ← and_or_left]
      exact (and_iff_left (ne_or_eq _ _)).symm
    agrees := fun id asked => (found id).trans (if_pos asked)
    once := by
      refine order.imp fun {a b} before same => ?_
      rw [same] at before
      exact Nat.lt_irrefl _ before
    order := order
    full := by rw [status, Status.classify_eq_full_iff, List.length_eq_zero_iff]
    miss := by
      rw [status, Status.classify_eq_miss_iff, List.length_eq_zero_iff, Ne, List.length_eq_zero_iff]
      exact and_congr_left' table.symm
    partly := by
      rw [status, Status.classify_eq_partly_iff, Ne, List.length_eq_zero_iff, Ne,
        List.length_eq_zero_iff]
      exact and_congr_left' (not_congr table.symm) }

theorem live?_write? {s : Slice} {store store' : Store} {now later : Instant} {data : Table Bytes}
    (written : s.write? store now data = some store') (fresh : later < Instant.after now s.ttl)
    (id : String) :
    store'.live? later (key s.scope id) = (data.get? id).or (store.live? later (key s.scope id)) := by
  rw [Slice.write?] at written
  split at written
  · rename_i empty
    cases written
    rw [← get?_keyed_key s, get?_keyed_of_isEmpty empty]
    rfl
  · rw [Store.set?, Option.map_eq_some_iff] at written
    obtain ⟨expires, told, rfl⟩ := written
    rw [Instant.after?] at told
    split at told
    · cases told
      rw [Store.live?, get?_putAll, get?_keyed_key]
      cases data.get? id with
      | none => rfl
      | some v => exact if_pos fresh
    · cases told

/-- What was just written is read back, beside what the store held before under all other
identifiers. -/
theorem write_then_read {s : Slice} {store store' : Store} {now : Instant} {data : Table Bytes}
    (lasting : 0 < s.ttl.nanos) (written : s.write? store now data = some store')
    (ids : List String) :
    Accounts (fun id => (data.get? id).or (store.live? now (key s.scope id))) ids
      (s.read store' now ids).1 := by
  have fresh : now < Instant.after now s.ttl := Nat.lt_add_of_pos_right lasting
  exact (accounts_read s store' now ids).congr fun id _ => live?_write? written fresh id

def minutely : Slice := ⟨"prices", Duration.ofSeconds 60⟩

def opened : Store := Store.empty.put (key "prices" "b") ⟨[50], Duration.ofSeconds 60 |>.nanos⟩

theorem write_then_read_minutely :
    ∃ store', minutely.write? opened nanosPerSecond (Table.empty.insert "a" [49]) = some store' ∧
      Accounts (fun id => ((Table.empty.insert "a" [49]).get? id).or
        (opened.live? nanosPerSecond (key "prices" id))) ["c", "a", "c", "b"]
        (minutely.read store' nanosPerSecond ["c", "a", "c", "b"]).1 ∧
      (minutely.read store' nanosPerSecond ["c", "a", "c", "b"]).1 =
        ⟨(Table.empty.insert "a" [49]).insert "b" [50], ["c"], .partly⟩ := by
  have written : minutely.write? opened nanosPerSecond (Table.empty.insert "a" [49]) =
      some (opened.put (key "prices" "a") ⟨[49], 61 * nanosPerSecond⟩) := by decide +kernel
  exact ⟨_, written, write_then_read (by decide) written _, by decide +kernel⟩

end MarketFeed.Cache
