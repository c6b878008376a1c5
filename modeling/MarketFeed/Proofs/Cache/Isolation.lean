import MarketFeed.Feed
import MarketFeed.Proofs.Cache.Entries
/-!
When two slices of one store disturb each other. The key of an identifier is its namespace, a
separator and itself with nothing escaped, so keys of two namespaces can coincide: they do exactly if
one namespace with its separator begins the other one. Slices whose namespaces are not so are
isolated from each other, and only those.
-/

set_option autoImplicit false
set_option relaxedAutoImplicit false

namespace MarketFeed

namespace Cache

def stem (n : String) : List Char := (n ++ ":id:").toList

theorem toList_key (n id : String) : (key n id).toList = stem n ++ id.toList :=
  String.toList_append

theorem key_injective (n : String) : Function.Injective (key n) := by
  intro i j same
  have lists := congrArg String.toList same
  rw [toList_key, toList_key] at lists
  exact String.toList_inj.mp (List.append_cancel_left lists)

/-- No key of either namespace begins like every key of the other one. -/
def Apart (m n : String) : Prop := ¬ stem m <+: stem n ∧ ¬ stem n <+: stem m

instance (m n : String) : Decidable (Apart m n) := inferInstanceAs (Decidable (_ ∧ _))

/-- Namespaces have no key in common exactly if they are apart. -/
theorem key_ne_iff_apart (m n : String) : (∀ i j, key m i ≠ key n j) ↔ Apart m n := by
  have meet : ∀ {a b : String}, stem a <+: stem b → ∃ i, key a i = key b "" := by
    rintro a b ⟨more, whole⟩
    refine ⟨String.ofList more, String.toList_inj.mp ?_⟩
    rw [toList_key, toList_key, String.toList_ofList, whole]
    exact (List.append_nil _).symm
  constructor
  · intro distinct
    refine ⟨fun begins => ?_, fun begins => ?_⟩
    · obtain ⟨i, same⟩ := meet begins
      exact distinct i "" same
    · obtain ⟨j, same⟩ := meet begins
      exact distinct "" j same.symm
  · rintro ⟨shorter, longer⟩ i j same
    have lists := congrArg String.toList same
    rw [toList_key, toList_key] at lists
    have first : stem m <+: stem n ++ j.toList := lists ▸ List.prefix_append _ _
    rcases List.prefix_or_prefix_of_prefix first (List.prefix_append _ _) with begins | begins
    · exact shorter begins
    · exact longer begins

theorem get?_keyed_key (s : Slice) (data : Table Bytes) (id : String) :
    (s.keyed data).get? (key s.scope id) = data.get? id := by
  have listed : ∀ es : List (String × Bytes),
      (es.map fun e => (key s.scope e.1, e.2)).lookup (key s.scope id) = es.lookup id := by
    intro es
    induction es with
    | nil => rfl
    | cons e rest ih =>
      obtain ⟨j, v⟩ := e
      rw [List.map_cons, Table.lookup_entry_cons, Table.lookup_entry_cons, ih]
      simp only [(key_injective s.scope).eq_iff]
  rw [Slice.keyed, Table.get?_ofList, ← List.map_reverse, listed, Table.lookup_reverse data.sorted]
  rfl

/-- The entries of every key of a namespace are the same in two stores. -/
def Agree (n : String) (s t : Store) : Prop :=
  ∀ id, s.entries.get? (key n id) = t.entries.get? (key n id)

namespace Agree

variable {slice other : Slice} {n : String} {s t u : Store}

theorem live? (agree : Agree n s t) (now : Instant) (id : String) :
    s.live? now (key n id) = t.live? now (key n id) := by
  rw [Store.live?, Store.live?, agree id]

theorem read (agree : Agree slice.scope s t) (now : Instant) (ids : List String) :
    (slice.read s now ids).1 = (slice.read t now ids).1 ∧
      Agree slice.scope (slice.read s now ids).2 (slice.read t now ids).2 := by
  have answers : ∀ id, (s.look now (ids.eraseDups.map (key slice.scope))).found.get?
      (key slice.scope id) =
        (t.look now (ids.eraseDups.map (key slice.scope))).found.get? (key slice.scope id) := by
    intro id
    rw [get?_look, get?_look, agree.live?]
  constructor
  · show slice.gather _ _ = slice.gather _ _
    simp only [Slice.gather, Store.get, answers]
  · intro id
    show (s.get now (ids.eraseDups.map (key slice.scope))).2.entries.get? _ =
      (t.get now (ids.eraseDups.map (key slice.scope))).2.entries.get? _
    rw [get?_get, get?_get, agree id]

theorem write (agree : Agree slice.scope s t) (now : Instant) (data : Table Bytes) :
    Option.Rel (Agree slice.scope) (slice.write? s now data) (slice.write? t now data) := by
  rw [Slice.write?, Slice.write?]
  split
  · exact .some agree
  · rw [Store.set?, Store.set?]
    cases Instant.after? now slice.ttl with
    | none => exact .none
    | some expires =>
      refine .some fun id => ?_
      rw [get?_putAll, get?_putAll, agree id]

theorem read_other (apart : Apart n other.scope) (agree : Agree n s t) (now : Instant)
    (ids : List String) : Agree n (other.read s now ids).2 t := by
  intro id
  have unasked : key n id ∉ ids.eraseDups.map (key other.scope) := by
    intro member
    obtain ⟨j, -, same⟩ := List.mem_map.mp member
    exact (key_ne_iff_apart _ _).mpr apart id j same.symm
  show (s.get now (ids.eraseDups.map (key other.scope))).2.entries.get? _ = _
  rw [get?_get, if_neg unasked]
  exact agree id

theorem write_other (apart : Apart n other.scope) (agree : Agree n s t) {now : Instant}
    {data : Table Bytes} (written : other.write? s now data = some u) : Agree n u t := by
  intro id
  rcases write?_entry written (key n id) with same | ⟨j, -, here, -⟩
  · exact same.trans (agree id)
  · exact absurd here ((key_ne_iff_apart _ _).mpr apart id j)

end Agree

end Cache

namespace Simulation.Storage

open Cache

/-- Two stores that refuse alike and hold the same for a namespace. -/
structure Alike (n : String) (s t : Storage) : Prop where
  agree : Agree n s.store t.store
  reads : s.readFails = t.readFails
  writes : s.writeFails = t.writeFails

namespace Alike

variable {slice other : Slice} {n : String} {s t : Storage}

theorem access (alike : Alike slice.scope s t) (now : Instant) (op : accesses.Op) :
    (Storage.access slice now op s).1 = (Storage.access slice now op t).1 ∧
      Alike slice.scope (Storage.access slice now op s).2 (Storage.access slice now op t).2 := by
  cases op with
  | read ids =>
    obtain ⟨answer, left⟩ := alike.agree.read now ids
    by_cases refused : t.readFails = true
    · have first : Storage.access slice now (.read ids) s = (some (.error _), s) :=
        if_pos (alike.reads.trans refused)
      have second : Storage.access slice now (.read ids) t = (some (.error _), t) :=
        if_pos refused
      rw [first, second]
      exact ⟨rfl, alike⟩
    · have first : Storage.access slice now (.read ids) s =
          (some (.ok (slice.read s.store now ids).1),
            { s with store := (slice.read s.store now ids).2 }) :=
        if_neg (alike.reads ▸ refused)
      have second : Storage.access slice now (.read ids) t =
          (some (.ok (slice.read t.store now ids).1),
            { t with store := (slice.read t.store now ids).2 }) := if_neg refused
      rw [first, second, answer]
      exact ⟨rfl, left, alike.reads, alike.writes⟩
  | write data =>
    have accepted : ∀ r : Storage, Storage.access slice now (.write data) r =
        if data.isEmpty then (some (.ok ()), r)
        else r.accept (slice.write? r.store now data) := fun _ => rfl
    rw [accepted, accepted]
    split
    · exact ⟨rfl, alike⟩
    · rw [accept.eq_def, accept.eq_def, alike.writes]
      split
      · exact ⟨rfl, alike⟩
      · have written := alike.agree.write now data
        generalize slice.write? s.store now data = left at written ⊢
        generalize slice.write? t.store now data = right at written ⊢
        cases written with
        | none => exact ⟨rfl, alike⟩
        | some agree => exact ⟨rfl, agree, alike.reads, rfl⟩

theorem access_other (apart : Apart n other.scope) (alike : Alike n s t) (now : Instant)
    (op : accesses.Op) : Alike n (Storage.access other now op s).2 t := by
  cases op with
  | read ids =>
    rw [Storage.access]
    split
    · exact alike
    · exact ⟨alike.agree.read_other apart now ids, alike.reads, alike.writes⟩
  | write data =>
    rcases s.write_cases other now data with same | ⟨store, written, carried⟩
    · have same' : (Storage.access other now (.write data) s).2 = s := same
      rw [same']
      exact alike
    · have carried' : Storage.access other now (.write data) s =
          (some (.ok ()), { s with store }) := carried
      rw [carried']
      exact ⟨alike.agree.write_other apart written, alike.reads, alike.writes⟩

end Alike

/-- A request through one slice among accesses through another: those made since the last request,
each at its time, when the request is made, and what a load would end with. -/
structure Moment where
  others : List (Instant × Access)
  now : Instant
  loaded : Except RefreshError Bytes

/-- The same moment had the other slice not been used. -/
def Moment.alone (m : Moment) : Moment := { m with others := [] }

def accessAll (slice : Slice) (uses : List (Instant × Access)) (s : Storage) : Storage :=
  uses.foldl (fun s use => (access slice use.1 use.2 s).2) s

/-- What is answered to requests through one slice while another one is used: one request at each
moment, none after the last. -/
def answerAmong (mine other : Slice) :
    Storage × List Moment → (op : Cache.requests.Op) →
      (Storage × List Moment) × Option (Cache.requests.Answer op)
  | (s, []), _ => ((s, []), none)
  | (s, m :: moments), .inl op =>
    let r := access mine m.now op (accessAll other m.others s)
    ((r.2, moments), r.1)
  | (s, m :: moments), .inr (.one _) =>
    ((accessAll other m.others s, moments), some (m.loaded : Except RefreshError Bytes))

def outcome {α : Type} (mine other : Slice) (p : Program Cache.requests α) (s : Storage)
    (moments : List Moment) : Option α :=
  (p.run? (answerAmong mine other) (s, moments)).2

/-- Whatever is asked through one slice, one call after another or several at once, at whatever times
and of whatever store, the answers are those that would be given had the other slice not been used. -/
def Isolated (mine other : Slice) : Prop :=
  ∀ (α : Type) (p : Program Cache.requests α) (s : Storage) (moments : List Moment),
    outcome mine other p s moments = outcome mine other p s (moments.map Moment.alone)

variable {mine other : Slice} {s t : Storage}

private theorem Alike.accessAll (apart : Apart mine.scope other.scope)
    (alike : Alike mine.scope s t) (uses : List (Instant × Access)) :
    Alike mine.scope (accessAll other uses s) t := by
  induction uses generalizing s with
  | nil => exact alike
  | cons use rest ih => exact ih (alike.access_other apart use.1 use.2)

private theorem run?_ask {σ α : Type} {S : Signature}
    (answer : σ → (op : S.Op) → σ × Option (S.Answer op)) (op : S.Op)
    (next : S.Answer op → Program S α) (state : σ) :
    ((Program.ask op next).run? answer state).2 =
      (answer state op).2.bind fun r => ((next r).run? answer (answer state op).1).2 := by
  rw [Program.run?]
  split
  · rename_i answered
    rw [answered]
    rfl
  · rename_i answered
    rw [answered]
    rfl

private theorem outcome_access {α : Type} (op : accesses.Op)
    (next : accesses.Answer op → Program Cache.requests α) (s : Storage) (m : Moment)
    (moments : List Moment) :
    outcome mine other (.ask (.inl op) next) s (m :: moments) =
      (access mine m.now op (accessAll other m.others s)).1.bind fun r =>
        outcome mine other (next r) (access mine m.now op (accessAll other m.others s)).2
          moments :=
  run?_ask (S := Cache.requests) (answerAmong mine other) (.inl op) next (s, m :: moments)

private theorem outcome_eq (apart : Apart mine.scope other.scope) {α : Type}
    (p : Program Cache.requests α) (alike : Alike mine.scope s t) (moments : List Moment) :
    outcome mine other p s moments = outcome mine other p t (moments.map Moment.alone) := by
  -- the two stores stay alike from one request to the next, whatever happens in between
  induction p generalizing s t moments with
  | done a => rfl
  | ask op next ih =>
    cases moments with
    | nil => cases op <;> rfl
    | cons m moments =>
      have before := alike.accessAll apart m.others
      cases op with
      | inl op =>
        obtain ⟨answer, after⟩ := before.access m.now op
        refine (outcome_access op next s m moments).trans (Eq.trans ?_
          (outcome_access op next t m.alone (moments.map Moment.alone)).symm)
        rw [answer]
        exact congrArg _ (funext fun r => ih r after moments)
      | inr op =>
        obtain ⟨id⟩ := op
        exact ih _ before moments

private theorem outcome_read (mine other : Slice) (i : String) (m : Moment) (s : Storage)
    (accepts : (accessAll other m.others s).readFails = false) :
    ∃ lookup, outcome mine other (Cache.read [i]) s [m] = some (.ok lookup) ∧
      lookup.found.get? i = (accessAll other m.others s).store.live? m.now (key mine.scope i) := by
  refine ⟨(mine.read (accessAll other m.others s).store m.now [i]).1, ?_, ?_⟩
  · have carried : Storage.access mine m.now (.read [i]) (accessAll other m.others s) =
        (some (.ok (mine.read (accessAll other m.others s).store m.now [i]).1), _) :=
      if_neg (Bool.not_eq_true _ ▸ accepts)
    refine (outcome_access (.read [i]) .done s m []).trans ?_
    rw [carried]
    rfl
  · exact (get?_read mine _ m.now [i] i).trans (if_pos (List.mem_singleton_self i))

private def token (j : String) : Table Bytes := Table.empty.insert j []

private theorem not_isolated {i j : String} (same : key mine.scope i = key other.scope j)
    (lives : 0 < other.ttl.nanos) (told : other.ttl.nanos < Instant.horizon) :
    ¬ Isolated mine other := by
  intro isolated
  have after_zero : Instant.after 0 other.ttl = other.ttl.nanos := Nat.zero_add _
  have tells : Instant.after 0 other.ttl < Instant.horizon := after_zero ▸ told
  obtain ⟨store, written, entries⟩ := write?_of_tellable tells Store.empty (token j)
  have accepted : Storage.access other 0 (.write (token j)) .empty =
      Storage.empty.accept (other.write? Store.empty 0 (token j)) := rfl
  have wrote : accessAll other [(0, .write (token j))] .empty = { Storage.empty with store } := by
    rw [accessAll, List.foldl_cons, List.foldl_nil, accepted, written]
    rfl
  have entry : store.entries.get? (key other.scope j) =
      some ⟨[], Instant.after 0 other.ttl⟩ := by
    rw [entries, get?_keyed_key, token, Table.get?_insert, if_pos rfl]
    rfl
  obtain ⟨lookup, found, payload⟩ := outcome_read mine other i
    ⟨[(0, .write (token j))], 0, .error (.notFound i)⟩ .empty (by rw [wrote]; rfl)
  obtain ⟨lookup', found', nothing⟩ := outcome_read mine other i
    ⟨[], 0, .error (.notFound i)⟩ .empty rfl
  have equal := isolated _ (Cache.read [i]) .empty
    [⟨[(0, .write (token j))], 0, .error (.notFound i)⟩]
  cases (found.symm.trans equal).trans found'
  rw [payload, wrote, Store.live?, same, entry] at nothing
  simp only [after_zero, if_pos lives] at nothing
  cases nothing

/-- A slice is isolated from another exactly if no key of its namespace begins like every key of the
other one, which says as much as that the two have no key in common. In one namespace no two
identifiers share a key. -/
theorem isolated_iff_apart (lives : 0 < other.ttl.nanos) (told : other.ttl.nanos < Instant.horizon) :
    (Isolated mine other ↔ Apart mine.scope other.scope) ∧
      ((∀ i j, key mine.scope i ≠ key other.scope j) ↔ Apart mine.scope other.scope) ∧
      ∀ i j, key mine.scope i = key mine.scope j → i = j := by
  refine ⟨⟨fun isolated => ?_, fun apart => ?_⟩, key_ne_iff_apart _ _, fun i j same =>
    key_injective _ same⟩
  · rw [← key_ne_iff_apart]
    exact fun i j same => not_isolated same lives told isolated
  · intro α p s moments
    exact outcome_eq apart p ⟨fun _ => rfl, rfl, rfl⟩ moments

theorem isolated_iff_apart_prices :
    0 < (Duration.ofSeconds 300).nanos ∧ (Duration.ofSeconds 300).nanos < Instant.horizon ∧
      Isolated ⟨"prices", Duration.ofSeconds 300⟩ ⟨"charts", Duration.ofSeconds 300⟩ := by
  have lives : 0 < (Duration.ofSeconds 300).nanos := by decide
  have told : (Duration.ofSeconds 300).nanos < Instant.horizon := by decide
  have apart : Apart "prices" "charts" := by decide
  exact ⟨lives, told, (isolated_iff_apart lives told).1.mpr apart⟩

def plainFeed (name : String) : FeedConfig :=
  { name, endpoint := { path := "/simple/price?ids=\x7b\x7bids_list\x7d\x7d" } }

/-- Two feeds are accepted whose names differ, and yet one of them finds what the other one stored. -/
theorem accepted_not_isolated :
    (plainFeed "a").validate = .ok () ∧ (plainFeed "a:id:x").validate = .ok () ∧
      (plainFeed "a:id:x").name ≠ (plainFeed "a").name ∧
      key "a:id:x" "y" = key "a" "x:id:y" ∧
      ¬ Isolated (Feed.sliceOf (plainFeed "a:id:x")) (Feed.sliceOf (plainFeed "a")) := by
  have same : key "a:id:x" "y" = key "a" "x:id:y" := by decide
  refine ⟨rfl, rfl, by decide, same, not_isolated same ?_ ?_⟩
  · decide
  · decide

end Simulation.Storage
end MarketFeed
