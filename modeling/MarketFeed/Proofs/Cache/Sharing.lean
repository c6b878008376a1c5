import MarketFeed.Proofs.Cache.Expiry
import MarketFeed.Proofs.Program.Asking
import MarketFeed.Proofs.Simulation.Tracing
/-!
Calls to one store side by side. A call is a program of single operations on the entries; between two of
its operations other calls may do anything, and each call goes by the clock as it was when the call began.
However calls are interleaved, they drop nothing that has not expired, so what was put in is found until it
expires or is replaced.
-/

set_option autoImplicit false
set_option relaxedAutoImplicit false

namespace MarketFeed.Cache

open Program Simulation

/-! ### Single operations -/

/-- Single operations on the entries of a store: to look a key up, to ask whether it has an entry, to drop
its entry or all entries if they have expired by a clock, to put an entry in, and to count. -/
inductive EntryOp where
  | lookup (key : String)
  | contains (key : String)
  | removeIf (key : String) (clock : Instant)
  | retain (clock : Instant)
  | insert (key : String) (entry : Entry)
  | size

def EntryOp.Answer : EntryOp → Type
  | .lookup _ => Option Entry
  | .contains _ => Bool
  | .removeIf _ _ | .retain _ | .insert _ _ => Unit
  | .size => Nat

def entryOps : Signature := ⟨EntryOp, EntryOp.Answer⟩

def Store.perform (s : Store) : (op : entryOps.Op) → Store × entryOps.Answer op
  | .lookup k => (s, s.entries.get? k)
  | .contains k => (s, s.entries.contains k)
  | .removeIf k clock => (s.dropExpired clock k, ())
  | .retain clock => (s.purge clock, ())
  | .insert k e => (s.put k e, ())
  | .size => (s, s.size)

/-! ### Calls -/

/-- What a call returns: what was found, that values were stored, that their expiry cannot be told, or how
many entries were dropped. -/
inductive Reply where
  | got (found : Found)
  | stored
  | untellable
  | purged (count : Nat)

def lookup (key : String) : Program entryOps (Option Entry) := call (S := entryOps) (.lookup key)

def contains (key : String) : Program entryOps Bool := call (S := entryOps) (.contains key)

def removeIf (key : String) (clock : Instant) : Program entryOps Unit :=
  call (S := entryOps) (.removeIf key clock)

def retain (clock : Instant) : Program entryOps Unit := call (S := entryOps) (.retain clock)

def insert (key : String) (entry : Entry) : Program entryOps Unit :=
  call (S := entryOps) (.insert key entry)

def size : Program entryOps Nat := call (S := entryOps) .size

/-- What a read has seen of its keys so far: what was found, which were missed, and which of these had an
entry all the same. -/
structure Seen where
  found : Table Bytes
  missing : List String
  stale : List String

def Seen.find (seen : Seen) (key : String) (value : Bytes) : Seen :=
  { seen with found := seen.found.insert key value }

def Seen.miss (seen : Seen) (key : String) (there : Bool) : Seen :=
  { seen with
    missing := seen.missing ++ [key]
    stale := if there then seen.stale ++ [key] else seen.stale }

/-- The value of an entry that has not expired by a clock. -/
def Entry.live? (clock : Instant) (e : Entry) : Option Bytes :=
  if clock < e.expires then some e.value else none

def scan (clock : Instant) : List String → Seen → Program entryOps Seen
  | [], seen => return seen
  | k :: rest, seen => do
    match (← lookup k).bind (Entry.live? clock) with
    | some v => scan clock rest (seen.find k v)
    | none =>
      let there ← contains k
      scan clock rest (seen.miss k there)

def clean (clock : Instant) : List String → Program entryOps Unit
  | [] => return ()
  | k :: rest => do
    removeIf k clock
    clean clock rest

/-- A read of some keys; the entries that have expired are dropped once all keys are looked up. -/
def reading (clock : Instant) (keys : List String) : Program entryOps Reply := do
  let seen ← scan clock keys ⟨∅, [], []⟩
  clean clock seen.stale
  return .got ⟨seen.found, seen.missing⟩

def putEach (expires : Instant) : List (String × Bytes) → Program entryOps Unit
  | [] => return ()
  | (k, v) :: rest => do
    insert k ⟨v, expires⟩
    putEach expires rest

def writing (clock : Instant) (pairs : List (String × Bytes)) (ttl : Duration) :
    Program entryOps Reply :=
  match Instant.after? clock ttl with
  | none => return .untellable
  | some expires => do
    putEach expires pairs
    return .stored

def purging (clock : Instant) : Program entryOps Reply := do
  let before ← size
  retain clock
  let left ← size
  return .purged (before - left)

/-- The programs of the calls for a use; a write puts its values in in any order. -/
inductive Performs (clock : Instant) : Use → Program entryOps Reply → Prop where
  | get (keys : List String) : Performs clock (.get keys) (reading clock keys)
  | set {data : Table Bytes} {pairs : List (String × Bytes)} (order : pairs.Perm data.entries)
      (ttl : Duration) : Performs clock (.set data ttl) (writing clock pairs ttl)
  | purge : Performs clock .purge (purging clock)

/-! ### A call alone -/

section Alone

variable {clock : Instant} {s : Store}

theorem run_bind {α β : Type} (p : Program entryOps α) (f : α → Program entryOps β) (s : Store) :
    (p.bind f).run Store.perform s =
      (f (p.run Store.perform s).2).run Store.perform (p.run Store.perform s).1 := by
  induction p generalizing s with
  | done a => rfl
  | ask op next ih => exact ih _ _

theorem live?_eq_bind (s : Store) (clock : Instant) (k : String) :
    s.live? clock k = (s.entries.get? k).bind (Entry.live? clock) := by
  rw [Store.live?]
  cases s.entries.get? k <;> rfl

def staleOf (s : Store) (clock : Instant) (keys : List String) : List String :=
  keys.filter fun k => (s.live? clock k).isNone && s.entries.contains k

/-- Nothing comes between the two looks at a key, so the scan finds and misses what the store holds. -/
theorem run_scan (s : Store) (clock : Instant) (keys : List String) (seen : Seen) :
    (scan clock keys seen).run Store.perform s =
      (s, ⟨seen.found.insertList (keys.filterMap fun k => (s.live? clock k).map fun v => (k, v)),
        seen.missing ++ keys.filter fun k => (s.live? clock k).isNone,
        seen.stale ++ staleOf s clock keys⟩) := by
  induction keys generalizing seen with
  | nil => simp [scan, staleOf, Program.run, pure, Table.insertList]
  | cons k rest ih =>
    change Program.run _ (match (s.entries.get? k).bind (Entry.live? clock) with
      | some v => scan clock rest (seen.find k v)
      | none => (contains k).bind fun there => scan clock rest (seen.miss k there)) s = _
    rw [← live?_eq_bind]
    cases live : s.live? clock k with
    | some v =>
      rw [ih]
      simp [staleOf, live, Table.insertList, Seen.find]
    | none =>
      rw [run_bind]
      change Program.run _ (scan clock rest (seen.miss k (s.entries.contains k))) s = _
      rw [ih]
      by_cases there : s.entries.contains k = true <;> simp [staleOf, live, there, Seen.miss]

theorem run_clean (s : Store) (clock : Instant) (keys : List String) :
    (clean clock keys).run Store.perform s = ((s.get clock keys).2, ()) := by
  induction keys generalizing s with
  | nil => rfl
  | cons k rest ih => exact ih (s.dropExpired clock k)

theorem get_staleOf (s : Store) (clock : Instant) (keys : List String) :
    (s.get clock (staleOf s clock keys)).2 = (s.get clock keys).2 := by
  have entries : (s.get clock (staleOf s clock keys)).2.entries = (s.get clock keys).2.entries := by
    refine Table.ext_get? fun k => ?_
    rw [get?_get, get?_get]
    by_cases asked : k ∈ keys
    · by_cases stale : k ∈ staleOf s clock keys
      · rw [if_pos stale, if_pos asked]
      · rw [if_neg stale, if_pos asked]
        cases held : s.entries.get? k with
        | none => rfl
        | some e =>
          have fresh : clock < e.expires := by
            by_contra old
            exact stale (List.mem_filter.mpr ⟨asked, by
              simp [live?_eq_bind, Table.contains, held, Entry.live?, old]⟩)
          simp [Option.filter, fresh]
    · have absent : k ∉ staleOf s clock keys := fun stale => asked ((List.mem_filter.mp stale).1)
      rw [if_neg absent, if_neg asked]
  exact congrArg Store.mk entries

theorem run_reading (s : Store) (clock : Instant) (keys : List String) :
    (reading clock keys).run Store.perform s =
      ((s.get clock keys).2, .got (s.get clock keys).1) := by
  change ((scan clock keys ⟨∅, [], []⟩).bind fun seen => (clean clock seen.stale).bind fun _ =>
    .done (Reply.got ⟨seen.found, seen.missing⟩)).run Store.perform s = _
  rw [run_bind, run_scan, List.nil_append, List.nil_append]
  dsimp only
  rw [run_bind, run_clean, get_staleOf]
  rfl

theorem run_putEach {pairs : List (String × Bytes)} {data : Table Bytes}
    (order : pairs.Perm data.entries) (s : Store) (expires : Instant) :
    (putEach expires pairs).run Store.perform s = (s.putAll data expires, ()) := by
  have each : ∀ (pairs : List (String × Bytes)) (s : Store),
      (putEach expires pairs).run Store.perform s =
        (⟨s.entries.insertList (pairs.map fun e => (e.1, ⟨e.2, expires⟩))⟩, ()) := by
    intro pairs
    induction pairs with
    | nil => exact fun _ => rfl
    | cons e rest ih => exact fun s => ih (s.put e.1 ⟨e.2, expires⟩)
  have entries : s.entries.insertList (pairs.map fun e => (e.1, ⟨e.2, expires⟩)) =
      (s.putAll data expires).entries := by
    refine Table.ext_get? fun k => ?_
    rw [get?_putAll, Table.get?_insertList, ← List.map_reverse,
      Table.lookup_map (fun _ v => (⟨v, expires⟩ : Entry)), ← Table.get?_ofList,
      Table.ofList_of_perm order]
  rw [each, entries]

/-- What a call returns if nothing comes between its operations. -/
def Store.reply (s : Store) : Instant × Use → Reply
  | (clock, .get keys) => .got (s.get clock keys).1
  | (clock, .set data ttl) => if (s.set? clock data ttl).isSome then .stored else .untellable
  | (clock, .purge) => .purged (s.expiredCount clock)

theorem run_performs {use : Use} {p : Program entryOps Reply} (performs : Performs clock use p)
    (s : Store) : p.run Store.perform s = (s.used (clock, use), s.reply (clock, use)) := by
  cases performs with
  | get keys => exact run_reading s clock keys
  | purge => rfl
  | @set data pairs order ttl =>
    rw [writing]
    cases told : Instant.after? clock ttl with
    | none => simp [Store.used, Store.reply, Store.set?, told, Program.run, pure]
    | some expires =>
      change ((putEach expires pairs).bind fun _ => .done Reply.stored).run Store.perform s = _
      rw [run_bind, run_putEach order]
      simp [Store.used, Store.reply, Store.set?, told, Program.run]

end Alone

/-! ### Calls side by side -/

/-- Any number of calls to one store; nothing else touches it. -/
def sharing : Setting Store entryOps Reply where
  start _ _ op s := (.answer (s.perform op).2, (s.perform op).1)
  resume _ _ op s := (.answer (s.perform op).2, (s.perform op).1)
  starts now _ p := ∃ use, Performs now use p
  changes _ _ _ := False

abbrev Shared := System Store entryOps Reply

/-- An operation drops nothing but what has expired at a time. -/
def Due (now : Instant) : entryOps.Op → Prop
  | .removeIf _ clock | .retain clock => clock ≤ now
  | .lookup _ | .contains _ | .insert _ _ | .size => True

section Calls

variable {clock now : Instant}

theorem asks_scan (keys : List String) (seen : Seen) : (scan clock keys seen).Asks (Due clock) := by
  induction keys generalizing seen with
  | nil => exact asks_pure _
  | cons k rest ih =>
    refine (asks_call (S := entryOps) (.lookup k) trivial).bind fun held => ?_
    change Asks _ (match Option.bind held (Entry.live? clock) with
      | some v => _
      | none => _)
    split
    · exact ih _
    · exact (asks_call (S := entryOps) (.contains k) trivial).bind fun _ => ih _

theorem asks_clean (keys : List String) : (clean clock keys).Asks (Due clock) := by
  induction keys with
  | nil => exact asks_pure _
  | cons k rest ih =>
    exact (asks_call (S := entryOps) (.removeIf k clock) (Nat.le_refl _)).bind fun _ => ih

theorem asks_putEach (expires : Instant) (pairs : List (String × Bytes)) :
    (putEach expires pairs).Asks (Due clock) := by
  induction pairs with
  | nil => exact asks_pure _
  | cons e rest ih =>
    exact (asks_call (S := entryOps) (.insert e.1 _) trivial).bind fun _ => ih

theorem Performs.asks {use : Use} {p : Program entryOps Reply} (performs : Performs clock use p) :
    p.Asks (Due clock) := by
  cases performs with
  | get keys =>
    exact (asks_scan keys _).bind fun seen => (asks_clean _).bind fun _ => asks_pure _
  | purge =>
    refine (asks_call (S := entryOps) .size trivial).bind fun _ => ?_
    refine (asks_call (S := entryOps) (.retain clock) (Nat.le_refl _)).bind fun _ => ?_
    exact (asks_call (S := entryOps) .size trivial).bind fun _ => asks_pure _
  | @set data pairs order ttl =>
    rw [writing]
    split
    · exact asks_pure _
    · exact (asks_putEach _ _).bind fun _ => asks_pure _

theorem pruned_perform {op : entryOps.Op} (due : Due now op) (keeps : ∀ k e, op ≠ .insert k e)
    (s : Store) : Pruned now (s.perform op).1 s := by
  cases op with
  | lookup | contains | size => exact .refl now s
  | insert k e => exact absurd rfl (keeps k e)
  | removeIf key clock =>
    have dropped : Pruned clock (s.dropExpired clock key) s := by
      refine (Pruned.refl clock s).drop fun k => ?_
      rw [get?_dropExpired]
      by_cases here : k = key
      · exact .inr (if_pos here)
      · exact .inl (if_neg here)
    exact dropped.mono due
  | retain clock =>
    have dropped : Pruned clock (s.purge clock) s :=
      (Pruned.refl clock s).drop fun k => .inr (Table.get?_filter s.entries _ k)
    exact dropped.mono due

end Calls

/-! ### What has been put in -/

def putIn? : Timed entryOps → Option (String × Entry)
  | ⟨_, .insert k e, _⟩ => some (k, e)
  | _ => none

/-- What calls have put in so far, call by call. -/
def putIn (threads : List (Thread entryOps Reply)) : List (String × Entry) :=
  (threads.flatMap Thread.log).filterMap putIn?

def insertions (k : String) (threads : List (Thread entryOps Reply)) : Nat :=
  (putIn threads).countP fun e => e.1 = k

/-- What one step does to a store: it puts one entry in, or it puts nothing in and drops only entries
that have expired by now. -/
inductive Effect (w w' : Shared) : Prop where
  | puts (k : String) (e : Entry) (put : w'.state = w.state.put k e)
      (told : (putIn w'.threads).Perm (putIn w.threads ++ [(k, e)]))
  | drops (pruned : Pruned w.now w'.state w.state)
      (told : (putIn w'.threads).Perm (putIn w.threads))

/-- A call that goes by the clock as it was when it began, and is on its way. -/
structure Sound (now : Instant) (t : Thread entryOps Reply) : Prop where
  begun : t.begun ≤ now
  performs : ∃ use, Performs t.begun use t.origin
  after : t.origin.After t.history t.rest

section Steps

variable {w w' : Shared} {t : Thread entryOps Reply}

theorem handled_eq (t : Thread entryOps Reply) (now : Instant) (op : entryOps.Op) (s : Store) :
    t.handled sharing.toHandler now op s = (.answer (s.perform op).2, (s.perform op).1) :=
  t.handled_of sharing.toHandler now op s (· = _) rfl rfl

theorem Sound.onward {now later : Instant} {t' : Thread entryOps Reply} (sound : Sound now t)
    (le : now ≤ later) (onward : t.Onward t') : Sound later t' := by
  obtain ⟨more, log, after⟩ := onward.more
  refine ⟨?_, ?_, ?_⟩
  · rw [onward.begun]
    exact Nat.le_trans sound.begun le
  · rw [onward.begun, onward.origin]
    exact sound.performs
  · rw [onward.origin, Thread.history, log, List.map_append]
    exact sound.after.trans after

theorem sound_reached {s : Store} (reached : sharing.Reaches s w) :
    ∀ t ∈ w.threads, Sound w.now t := by
  obtain ⟨now, run⟩ := reached
  induction run with
  | refl => exact List.forall_mem_nil _
  | tail _ next ih =>
    intro t' member
    rcases next.mem member with ⟨t, old, rfl | rfl | rfl⟩ | ⟨p, may, rfl⟩
    · exact (ih _ old).onward next.now_le (.refl _)
    · exact (ih t old).onward next.now_le ⟨rfl, rfl, [], (List.append_nil _).symm, .here _⟩
    · exact (ih t old).onward next.now_le (t.onward_move _ _ _)
    · exact ⟨next.now_le, may, .here _⟩

theorem putIn_set {threads : List (Thread entryOps Reply)} {i : Nat} (found : threads[i]? = some t)
    (t' : Thread entryOps Reply) {more : List (Timed entryOps)} (log : t'.log = t.log ++ more) :
    (putIn (threads.set i t')).Perm (putIn threads ++ more.filterMap putIn?) := by
  rw [putIn, putIn, ← List.filterMap_append]
  exact (Thread.logs_set found log).filterMap putIn?

theorem putIn_set_of_log_eq {threads : List (Thread entryOps Reply)} {i : Nat}
    (found : threads[i]? = some t) {t' : Thread entryOps Reply} (same : t'.log = t.log) :
    (putIn (threads.set i t')).Perm (putIn threads) := by
  have told := putIn_set found t' (same.trans (List.append_nil _).symm)
  exact told.trans (.of_eq (List.append_nil _))

theorem Sound.due {now : Instant} (sound : Sound now t) {op : entryOps.Op}
    {next : entryOps.Answer op → Program entryOps Reply} (asks : t.rest = .ask op next) :
    Due t.begun op := by
  obtain ⟨use, performs⟩ := sound.performs
  have left := performs.asks.after sound.after
  rw [asks] at left
  exact left.1

theorem effect_answered {i : Nat} (found : w.threads[i]? = some t) (sound : Sound w.now t)
    {op : entryOps.Op} {next : entryOps.Answer op → Program entryOps Reply}
    (asks : t.rest = .ask op next) :
    Effect w { w with
      state := (w.state.perform op).1
      threads := w.threads.set i
        (t.answered w.now op (w.state.perform op).2 (next (w.state.perform op).2)) } := by
  have told := putIn_set found
    (t.answered w.now op (w.state.perform op).2 (next (w.state.perform op).2)) rfl
  by_cases inserts : ∃ k e, op = .insert k e
  · obtain ⟨k, e, rfl⟩ := inserts
    exact .puts k e rfl told
  · have keeps : ∀ k e, op ≠ .insert k e := fun k e same => inserts ⟨k, e, same⟩
    have pruned := (pruned_perform (sound.due asks) keeps w.state).mono sound.begun
    refine .drops pruned (told.trans (.of_eq ?_))
    cases op with
    | insert k e => exact absurd rfl (keeps k e)
    | lookup | contains | removeIf | retain | size => exact List.append_nil _

theorem effect_next (sound : ∀ t ∈ w.threads, Sound w.now t) (next : sharing.Next w w') :
    Effect w w' := by
  cases next with
  | pass later => exact .drops (.refl _ _) (.refl _)
  | start may =>
    refine .drops (.refl _ _) ?_
    rw [putIn, List.flatMap_append]
    exact .of_eq (congrArg _ (List.append_nil _))
  | @cancel i t found => exact .drops (.refl _ _) (putIn_set_of_log_eq found rfl)
  | @move i t found =>
    rcases t.move_cases sharing.toHandler w.now w.state with still | ⟨op, next, asks, -, moved⟩
    · rw [still]
      exact .drops (.refl _ _) (putIn_set_of_log_eq found rfl)
    · rw [moved, handled_eq]
      exact effect_answered found (sound t (List.mem_of_getElem? found)) asks
  | change may => exact may.elim

theorem Effect.insertions_le (effect : Effect w w') (k : String) :
    insertions k w.threads ≤ insertions k w'.threads := by
  cases effect with
  | puts key e put told =>
    rw [insertions, insertions, told.countP_eq, List.countP_append]
    exact Nat.le_add_right _ _
  | drops pruned told => exact Nat.le_of_eq (told.countP_eq _).symm

theorem Effect.keeps {k : String} {e : Entry} (effect : Effect w w')
    (held : w.state.entries.get? k = some e) (fresh : w.now < e.expires)
    (unreplaced : insertions k w'.threads = insertions k w.threads) :
    w'.state.entries.get? k = some e := by
  cases effect with
  | puts key e' put told =>
    have other : k ≠ key := by
      rintro rfl
      rw [insertions, insertions, told.countP_eq, List.countP_append] at unreplaced
      simp at unreplaced
    rw [put, Store.put, Table.get?_insert, if_neg other]
    exact held
  | drops pruned told =>
    rcases pruned k with same | ⟨-, e', held', old⟩
    · exact same.trans held
    · cases held.symm.trans held'
      exact absurd fresh (Nat.not_lt.mpr old)

end Steps

/-! ### Runs -/

section Runs

variable {w w' : Shared} {s : Store} {k : String} {e : Entry}

theorem insertions_mono (reached : sharing.Reaches s w) (run : sharing.Leads w w') (k : String) :
    insertions k w.threads ≤ insertions k w'.threads := by
  induction run with
  | refl => exact Nat.le_refl _
  | tail run next ih =>
    obtain ⟨now, before⟩ := reached
    have sound := sound_reached ⟨now, before.trans run⟩
    exact Nat.le_trans ih ((effect_next sound next).insertions_le k)

/-- An entry stays until it expires or another one is put in under its key; `P` is what is to be shown of
every system on the way in which the entry is still there. -/
theorem held_induction {P : Shared → Prop} (reached : sharing.Reaches s w)
    (held : w.state.entries.get? k = some e) (first : P w)
    (further : ∀ u u', u.state.entries.get? k = some e → P u → sharing.Next u u' → P u')
    (run : sharing.Leads w w') (fresh : w'.now < e.expires)
    (unreplaced : insertions k w'.threads = insertions k w.threads) :
    w'.state.entries.get? k = some e ∧ P w' := by
  induction run with
  | refl => exact ⟨held, first⟩
  | @tail u u' run next ih =>
    have ⟨now, before⟩ := reached
    have effect := effect_next (sound_reached ⟨now, before.trans run⟩) next
    have early : u.now < e.expires := Nat.lt_of_le_of_lt next.now_le fresh
    -- insertions only grow, so as many at the end as at the start means as many all along
    have same : insertions k u.threads = insertions k w.threads := by
      refine Nat.le_antisymm ?_ (insertions_mono reached run k)
      rw [← unreplaced]
      exact effect.insertions_le k
    obtain ⟨there, onway⟩ := ih early same
    exact ⟨effect.keeps there early (unreplaced.trans same.symm), further u u' there onway next⟩

/-- Every time a key was looked up, it had one entry. -/
def Shows (k : String) (e : Entry) (h : List (Exchanged entryOps)) : Prop :=
  ∀ x ∈ h, ∀ a, x = ⟨.lookup k, a⟩ → a = some e

theorem Shows.head {h : List (Exchanged entryOps)} {a : Option Entry}
    (shows : Shows k e (⟨.lookup k, a⟩ :: h)) : a = some e :=
  shows _ List.mem_cons_self a rfl

theorem Shows.of_append {h l : List (Exchanged entryOps)} (shows : Shows k e (h ++ l)) :
    Shows k e h ∧ Shows k e l :=
  ⟨fun x here => shows x (List.mem_append_left _ here),
    fun x here => shows x (List.mem_append_right _ here)⟩

theorem Shows.of_cons {h : List (Exchanged entryOps)} {x : Exchanged entryOps}
    (shows : Shows k e (x :: h)) : Shows k e h :=
  fun y here => shows y (List.mem_cons_of_mem _ here)

theorem runs_scan {clock : Instant} (fresh : clock < e.expires) {keys : List String} {seen seen' : Seen}
    {h : List (Exchanged entryOps)} (runs : Runs (scan clock keys seen) h seen')
    (shows : Shows k e h) (asked : k ∈ keys ∨ seen.found.get? k = some e.value) :
    seen'.found.get? k = some e.value := by
  induction keys generalizing seen h with
  | nil =>
    obtain ⟨rfl, rfl⟩ := runs_pure runs
    exact asked.resolve_left List.not_mem_nil
  | cons key rest ih =>
    obtain ⟨held, l, rfl, going⟩ := runs_call_bind (S := entryOps) (.lookup key) runs
    have known : ∀ {found : Table Bytes}, (k ≠ key → found.get? k = seen.found.get? k) →
        (k = key → found.get? k = some e.value) → k ∈ rest ∨ found.get? k = some e.value := by
      intro found other same
      by_cases here : k = key
      · exact .inr (same here)
      · rw [other here]
        exact asked.imp_left fun asked => (List.mem_cons.mp asked).resolve_left here
    change Runs (match Option.bind held (Entry.live? clock) with
      | some v => scan clock rest (seen.find key v)
      | none => (contains key).bind fun there => scan clock rest (seen.miss key there)) l seen' at going
    have live : k = key → held.bind (Entry.live? clock) = some e.value := by
      rintro rfl
      rw [shows.head]
      exact if_pos fresh
    cases value : held.bind (Entry.live? clock) with
    | some v =>
      rw [value] at going live
      refine ih going shows.of_cons (known (fun other => ?_) fun same => ?_)
      · exact (Table.get?_insert seen.found key v k).trans (if_neg other)
      · exact (Table.get?_insert seen.found key v k).trans ((if_pos same).trans (live same))
    | none =>
      rw [value] at going live
      obtain ⟨there, m, rfl, onward⟩ := runs_call_bind (S := entryOps) (.contains key) going
      exact ih onward shows.of_cons.of_cons (known (fun _ => rfl) fun same =>
        (Option.some_ne_none _ (live same).symm).elim)

theorem runs_reading {clock : Instant} (fresh : clock < e.expires) {keys : List String} {r : Reply}
    {h : List (Exchanged entryOps)} (runs : Runs (reading clock keys) h r) (shows : Shows k e h)
    (asked : k ∈ keys) : ∃ found, r = .got found ∧ found.found.get? k = some e.value := by
  obtain ⟨h₁, h₂, seen, rfl, scanning, cleaning⟩ := runs_bind runs
  obtain ⟨_, h₃, _, rfl, -, ended⟩ := runs_bind cleaning
  obtain ⟨-, rfl⟩ := runs_pure ended
  exact ⟨_, rfl, runs_scan fresh scanning shows.of_append.1 (.inl asked)⟩

theorem Shows.move {t : Thread entryOps Reply} {now : Instant} (shows : Shows k e t.history)
    (held : s.entries.get? k = some e) : Shows k e (t.move sharing.toHandler now s).1.history := by
  rcases t.move_cases sharing.toHandler now s with still | ⟨op, next, -, -, moved⟩
  · rw [still]
    exact shows
  · rw [moved, handled_eq]
    intro x here a same
    change x ∈ (t.answered now op _ _).history at here
    rw [Thread.history_answered] at here
    rcases List.mem_append.mp here with old | new
    · exact shows x old a same
    · cases same
      cases List.mem_singleton.mp new
      exact held

theorem read_finds (reached : sharing.Reaches s w) (run : sharing.Leads w w')
    (held : w.state.entries.get? k = some e) (fresh : w'.now < e.expires)
    (unreplaced : insertions k w'.threads = insertions k w.threads) {i : Nat} {keys : List String}
    {t' : Thread entryOps Reply} {r : Reply}
    (begins : w.threads[i]? = some (.ofProgram (reading w.now keys) w.now))
    (found : w'.threads[i]? = some t') (ended : t'.rest = .done r) (asked : k ∈ keys) :
    ∃ found, r = .got found ∧ found.found.get? k = some e.value := by
  -- on the way the read is at the same place, and whenever it looked the key up it saw the entry
  have onway := (held_induction reached held
    (P := fun u => ∃ t, u.threads[i]? = some t ∧ Shows k e t.history)
    ⟨_, begins, List.forall_mem_nil _⟩ ?_ run fresh unreplaced).2
  · obtain ⟨t, found', shows⟩ := onway
    cases found.symm.trans found'
    obtain ⟨u, found', onward⟩ := Setting.Leads.onward run begins
    cases found.symm.trans found'
    obtain ⟨more, log, after⟩ := onward.more
    have early : w.now < e.expires :=
      Nat.lt_of_le_of_lt (Setting.Leads.now_le run) fresh
    rw [ended] at after
    rw [Thread.history, log] at shows
    exact runs_reading early (runs_iff_after.mpr after) shows asked
  · rintro u u' there ⟨t, found', shows⟩ next
    rcases next.found found' with same | cancelled | moved
    · exact ⟨t, same, shows⟩
    · exact ⟨_, cancelled, shows⟩
    · exact ⟨_, moved, shows.move there⟩

end Runs

/-- **Cleaning up loses nothing that is fresh.** Calls to one store may be interleaved in any way, each
going by the clock as it was when it began. Alone, a call does what its use does. Each single step puts one
entry in, or it drops only entries that have expired by then. So an entry stays until it expires or a call
puts another one in under its key, whatever the calls that are under way have seen before it was put in; by
no clock read meanwhile has it expired, and a read that begins and ends meanwhile finds it. -/
theorem fresh_entries_stay {s : Store} {w : Shared} (reached : sharing.Reaches s w) :
    (∀ clock use p, Performs clock use p → ∀ s : Store,
      p.run Store.perform s = (s.used (clock, use), s.reply (clock, use))) ∧
    (∀ t ∈ w.threads, t.begun ≤ w.now ∧ ∃ use, Performs t.begun use t.origin) ∧
    (∀ w', sharing.Next w w' → Effect w w') ∧
    ∀ w', sharing.Leads w w' → ∀ k e, w.state.entries.get? k = some e → w'.now < e.expires →
      insertions k w'.threads = insertions k w.threads →
        w'.state.entries.get? k = some e ∧
        (∀ clock, clock ≤ w'.now → w'.state.live? clock k = some e.value) ∧
        ∀ (i : Nat) (keys : List String) (t' : Thread entryOps Reply) (r : Reply),
          w.threads[i]? = some (.ofProgram (reading w.now keys) w.now) → w'.threads[i]? = some t' →
            t'.rest = .done r → k ∈ keys →
              ∃ found, r = .got found ∧ found.found.get? k = some e.value := by
  have sound := sound_reached reached
  refine ⟨fun clock use p performs s => run_performs performs s,
    fun t member => ⟨(sound t member).begun, (sound t member).performs⟩,
    fun w' next => effect_next sound next, fun w' run k e held fresh unreplaced => ?_⟩
  have there : w'.state.entries.get? k = some e :=
    (held_induction reached held (P := fun _ => True) trivial (fun _ _ _ _ _ => trivial) run fresh
      unreplaced).1
  refine ⟨there, fun clock le => ?_, fun i keys t' r begins found ended asked =>
    read_finds reached run held fresh unreplaced begins found ended asked⟩
  rw [live?_eq_bind, there]
  exact if_pos (Nat.lt_of_le_of_lt le fresh)

def aging : Store := Store.empty.put "btc" ⟨[49], 5⟩

/-- A read at ten has found the entry expired and has its removal still to come; a write has put a new
one in since, and another read has just begun. -/
def overtaken : Shared :=
  let w := [0, 0, 1].foldl sharing.moveOf
    ⟨10, aging, [.ofProgram (reading 10 ["btc"]) 10,
      .ofProgram (writing 10 [("btc", [50])] (Duration.ofNanos 20)) 10]⟩
  { w with threads := w.threads ++ [.ofProgram (reading w.now ["btc"]) w.now] }

theorem fresh_entries_stay_overtaken :
    sharing.Reaches aging overtaken ∧
      (∃ t next, overtaken.threads[0]? = some t ∧ t.rest = .ask (.removeIf "btc" 10) next) ∧
      ∃ w', sharing.Leads overtaken w' ∧ (∃ t, w'.threads[0]? = some t ∧
          t.rest = .done (.got ⟨∅, ["btc"]⟩)) ∧
        w'.state.live? 10 "btc" = some [50] ∧
        ∃ t r found, w'.threads[2]? = some t ∧ t.rest = .done r ∧ r = .got found ∧
          found.found.get? "btc" = some [50] := by
  have first := Setting.Next.start (A := sharing) (w := ⟨10, aging, []⟩)
    ⟨_, Performs.get ["btc"]⟩
  have second := Setting.Next.start (A := sharing)
    (w := ⟨10, aging, [.ofProgram (reading 10 ["btc"]) 10]⟩)
    ⟨.set (Table.empty.insert "btc" [50]) (Duration.ofNanos 20), Performs.set (.refl _) _⟩
  have third := Setting.Next.start (A := sharing) (w := [0, 0, 1].foldl sharing.moveOf
    ⟨10, aging, [.ofProgram (reading 10 ["btc"]) 10,
      .ofProgram (writing 10 [("btc", [50])] (Duration.ofNanos 20)) 10]⟩)
    ⟨_, Performs.get ["btc"]⟩
  have reached : sharing.Reaches aging overtaken :=
    ⟨10, .head first (.head second ((Setting.leads_moves _ _).tail third))⟩
  have run : sharing.Leads overtaken ([0, 2].foldl sharing.moveOf overtaken) :=
    Setting.leads_moves _ _
  have ⟨_, live, finds⟩ := (fresh_entries_stay reached).2.2.2 _ run "btc" ⟨[50], 30⟩ (by decide)
    (by decide) (by decide)
  obtain ⟨found, got, shown⟩ := finds 2 ["btc"] _ _ rfl rfl rfl (by decide)
  exact ⟨reached, ⟨_, _, rfl, rfl⟩, _, run, ⟨_, rfl, rfl⟩, live 10 (by decide), _, _, found, rfl, rfl,
    got, shown⟩

end MarketFeed.Cache
