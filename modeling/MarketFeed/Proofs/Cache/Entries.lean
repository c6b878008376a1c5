import MarketFeed.Simulation.Storage
import MarketFeed.Table.Lemmas
/-!
What reading and writing do to the entries of a store. A write replaces the entries of what it writes
and leaves every other entry alone, a read drops nothing that has not expired, and what a read finds
is the value of an entry that has not expired.
-/

set_option autoImplicit false
set_option relaxedAutoImplicit false

namespace MarketFeed.Cache

theorem get?_putAll (s : Store) (data : Table Bytes) (expires : Instant) (k : String) :
    (s.putAll data expires).entries.get? k =
      ((data.get? k).map fun v => ⟨v, expires⟩).or (s.entries.get? k) := by
  have entries : (s.putAll data expires).entries =
      s.entries.union (data.map fun _ v => ⟨v, expires⟩) := by
    rw [Store.putAll, Table.union, Table.map, Table.insertList, List.foldl_map]
    generalize data.entries = es
    induction es generalizing s with
    | nil => rfl
    | cons e rest ih => exact ih (s.put e.1 ⟨e.2, expires⟩)
  rw [entries, Table.get?_union, Table.get?_map]

theorem get?_keyed {s : Slice} {data : Table Bytes} {k : String} {v : Bytes}
    (found : (s.keyed data).get? k = some v) :
    ∃ id, k = key s.scope id ∧ data.get? id = some v := by
  rw [Slice.keyed, Table.get?_ofList] at found
  have member := List.mem_reverse.mp (Table.mem_of_lookup found)
  obtain ⟨⟨id, value⟩, entry, same⟩ := List.mem_map.mp member
  cases same
  exact ⟨id, rfl, (Table.mem_entries_iff data id _).mp entry⟩

/-- A write leaves an entry as it was, or puts a payload there that expires one time to live later. -/
theorem write?_entry {s : Slice} {store store' : Store} {now : Instant} {data : Table Bytes}
    (written : s.write? store now data = some store') (k : String) :
    store'.entries.get? k = store.entries.get? k ∨
      ∃ id v, k = key s.scope id ∧ data.get? id = some v ∧
        store'.entries.get? k = some ⟨v, Instant.after now s.ttl⟩ := by
  rw [Slice.write?] at written
  split at written
  · cases written
    exact .inl rfl
  · rw [Store.set?, Option.map_eq_some_iff] at written
    obtain ⟨expires, told, rfl⟩ := written
    rw [get?_putAll]
    cases found : (s.keyed data).get? k with
    | none => exact .inl rfl
    | some v =>
      obtain ⟨id, here, payload⟩ := get?_keyed found
      refine .inr ⟨id, v, here, payload, ?_⟩
      rw [Instant.after?] at told
      split at told
      · cases told
        rfl
      · cases told

theorem get?_keyed_of_isEmpty {s : Slice} {data : Table Bytes} (empty : data.isEmpty = true)
    (k : String) : (s.keyed data).get? k = none := by
  have nothing : data.entries = [] := List.isEmpty_iff.mp empty
  rw [Slice.keyed, nothing]
  rfl

theorem write?_of_tellable {s : Slice} {now : Instant}
    (tells : Instant.after now s.ttl < Instant.horizon) (store : Store) (data : Table Bytes) :
    ∃ store', s.write? store now data = some store' ∧ ∀ k, store'.entries.get? k =
      (((s.keyed data).get? k).map fun v => ⟨v, Instant.after now s.ttl⟩).or
        (store.entries.get? k) := by
  by_cases empty : data.isEmpty = true
  · refine ⟨store, if_pos empty, fun k => ?_⟩
    rw [get?_keyed_of_isEmpty empty]
    rfl
  · refine ⟨store.putAll (s.keyed data) (Instant.after now s.ttl), ?_, get?_putAll _ _ _⟩
    rw [Slice.write?, if_neg empty, Store.set?, Instant.after?, if_pos tells]
    rfl

theorem get?_dropExpired (s : Store) (now : Instant) (k' k : String) :
    (s.dropExpired now k').entries.get? k =
      if k = k' then (s.entries.get? k).filter fun e => decide (now < e.expires)
      else s.entries.get? k := by
  rw [Store.dropExpired]
  cases held : s.entries.get? k' with
  | none =>
    by_cases here : k = k'
    · rw [if_pos here, here]
      simp [held]
    · rw [if_neg here]
  | some e =>
    by_cases here : k = k'
    · subst here
      rw [if_pos rfl, held]
      by_cases old : e.expires ≤ now
      · simp [old, Table.get?_erase, Option.filter]
      · simp [old, held, Option.filter]
    · rw [if_neg here]
      by_cases old : e.expires ≤ now
      · simp [old, Table.get?_erase, here]
      · simp [old]

theorem get?_get (s : Store) (now : Instant) (keys : List String) (k : String) :
    (s.get now keys).2.entries.get? k =
      if k ∈ keys then (s.entries.get? k).filter fun e => decide (now < e.expires)
      else s.entries.get? k := by
  rw [Store.get]
  induction keys generalizing s with
  | nil => rfl
  | cons first rest ih =>
    rw [List.foldl_cons, ih, get?_dropExpired]
    by_cases here : k = first
    · simp only [here, List.mem_cons_self, if_true, Option.filter_filter, Bool.and_self, ite_self]
    · simp only [here, if_false, List.mem_cons, false_or]

theorem read_entry {s : Slice} {store : Store} {now : Instant} {ids : List String} {k : String}
    {e : Entry} (kept : (s.read store now ids).2.entries.get? k = some e) :
    store.entries.get? k = some e := by
  have drop : ∀ (store : Store) (k' : String),
      (store.dropExpired now k').entries.get? k = some e → store.entries.get? k = some e := by
    intro store k' kept
    rw [Store.dropExpired] at kept
    split at kept
    · split at kept
      · rw [Table.get?_erase] at kept
        split at kept
        · cases kept
        · exact kept
      · exact kept
    · exact kept
  have all : ∀ (keys : List String) (store : Store),
      (keys.foldl (fun acc k => acc.dropExpired now k) store).entries.get? k = some e →
        store.entries.get? k = some e := by
    intro keys
    induction keys with
    | nil => exact fun _ kept => kept
    | cons k' rest ih => exact fun store kept => drop store k' (ih (store.dropExpired now k') kept)
  exact all _ store kept

theorem get?_look (s : Store) (now : Instant) (keys : List String) (k : String) :
    (s.look now keys).found.get? k = if k ∈ keys then s.live? now k else none :=
  Table.get?_ofList_filterMap _ keys k

theorem get?_read (s : Slice) (store : Store) (now : Instant) (ids : List String) (id : String) :
    (s.read store now ids).1.found.get? id =
      if id ∈ ids then store.live? now (key s.scope id) else none := by
  show (Table.ofList _).get? id = _
  rw [Table.get?_ofList_filterMap]
  simp only [List.mem_eraseDups]
  by_cases asked : id ∈ ids
  · have under : key s.scope id ∈ ids.eraseDups.map (key s.scope) :=
      List.mem_map_of_mem (List.mem_eraseDups.mpr asked)
    rw [if_pos asked, if_pos asked]
    exact (get?_look store now _ _).trans (if_pos under)
  · rw [if_neg asked, if_neg asked]

theorem read_found {s : Slice} {store : Store} {now : Instant} {ids : List String} {id : String}
    {v : Bytes} (found : (s.read store now ids).1.found.get? id = some v) :
    ∃ e, store.entries.get? (key s.scope id) = some e ∧ e.value = v ∧ now < e.expires := by
  rw [get?_read] at found
  split at found
  · rw [Store.live?] at found
    split at found
    · rename_i e entry
      split at found
      · rename_i fresh
        cases found
        exact ⟨e, entry, rfl, fresh⟩
      · cases found
    · cases found
  · cases found

theorem purge_entry {store : Store} {now : Instant} {k : String} {e : Entry}
    (kept : (store.purge now).entries.get? k = some e) : store.entries.get? k = some e := by
  rw [Store.purge, Table.get?_filter, Option.filter_eq_some_iff] at kept
  exact kept.1

end MarketFeed.Cache

namespace MarketFeed.Simulation.Storage

theorem write_cases (s : Storage) (slice : Cache.Slice) (now : Instant) (data : Table Bytes) :
    (s.write slice now data).2 = s ∨ ∃ store, slice.write? s.store now data = some store ∧
      s.write slice now data = (some (.ok ()), { s with store }) := by
  by_cases empty : data.isEmpty = true
  · have same : s.write slice now data = (some (.ok ()), s) := if_pos empty
    rw [same]
    exact .inl rfl
  · have accepted : s.write slice now data = s.accept (slice.write? s.store now data) :=
      if_neg empty
    rw [accepted, accept.eq_def]
    split
    · exact .inl rfl
    · cases written : slice.write? s.store now data with
      | none => exact .inl rfl
      | some store => exact .inr ⟨store, rfl, rfl⟩

theorem write_of_tellable {s : Storage} {slice : Cache.Slice} {now : Instant}
    (accepts : s.writeFails = false) (tells : Instant.after now slice.ttl < Instant.horizon)
    (data : Table Bytes) :
    ∃ store, s.write slice now data = (some (.ok ()), { s with store }) ∧
      ∀ k, store.entries.get? k =
        (((slice.keyed data).get? k).map fun v => ⟨v, Instant.after now slice.ttl⟩).or
          (s.store.entries.get? k) := by
  by_cases empty : data.isEmpty = true
  · refine ⟨s.store, if_pos empty, fun k => ?_⟩
    rw [Cache.get?_keyed_of_isEmpty empty]
    rfl
  · obtain ⟨store, written, entries⟩ := Cache.write?_of_tellable tells s.store data
    refine ⟨store, ?_, entries⟩
    have accepted : s.write slice now data = s.accept (slice.write? s.store now data) :=
      if_neg empty
    rw [accepted, accept.eq_def, accepts, written]
    rfl

theorem write_entry {s : Storage} {slice : Cache.Slice} {now : Instant} {data : Table Bytes}
    {k : String} {e : Cache.Entry}
    (entry : (s.write slice now data).2.store.entries.get? k = some e) :
    s.store.entries.get? k = some e ∨ (s.write slice now data).1 = some (.ok ()) ∧
      ∃ id, k = Cache.key slice.scope id ∧ data.get? id = some e.value ∧
        e.expires = Instant.after now slice.ttl := by
  rcases s.write_cases slice now data with same | ⟨store, written, whole⟩
  · rw [same] at entry
    exact .inl entry
  · rw [whole] at entry
    rcases Cache.write?_entry written k with same | ⟨id, v, here, payload, put⟩
    · exact .inl (same.symm.trans entry)
    · cases put.symm.trans entry
      rw [whole]
      exact .inr ⟨rfl, id, here, payload, rfl⟩

theorem read_cases (s : Storage) (slice : Cache.Slice) (now : Instant) (ids : List String) :
    (∃ e, s.read slice now ids = (some (.error e), s)) ∨
      s.read slice now ids =
        (some (.ok (slice.read s.store now ids).1),
          { s with store := (slice.read s.store now ids).2 }) := by
  by_cases refused : s.readFails = true
  · exact .inl ⟨_, if_pos refused⟩
  · exact .inr (if_neg refused)

theorem read_entry {s : Storage} {slice : Cache.Slice} {now : Instant} {ids : List String}
    {k : String} {e : Cache.Entry}
    (entry : (s.read slice now ids).2.store.entries.get? k = some e) :
    s.store.entries.get? k = some e := by
  rcases s.read_cases slice now ids with ⟨refusal, same⟩ | carried
  · rw [same] at entry
    exact entry
  · rw [carried] at entry
    exact Cache.read_entry entry

end MarketFeed.Simulation.Storage
