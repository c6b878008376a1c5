import MarketFeed.Proofs.Feed.Effects
import MarketFeed.Proofs.Feed.Sources
import MarketFeed.Proofs.FeedConfig.Acceptance
import MarketFeed.Proofs.Simulation.Interleaving
/-!
What a feed serves. However its refreshes and reads are interleaved, and whatever the data service
answers, a payload is returned only for the identifier that the data service assigned it to, as it
was, and only while the time to live since it was stored has not passed.
-/

set_option autoImplicit false
set_option relaxedAutoImplicit false

namespace MarketFeed.Feed

open Program Simulation

abbrev Job : Type := Thread jobs FeedResult

/-- The payloads that an exchange put into the store. -/
def deposited? : Exchanged jobs → Option Payloads
  | ⟨.inl (.inl (.store chunk)), .ok ()⟩ => some chunk
  | ⟨.inl (.inr (.write data)), .ok ()⟩ => some data
  | _ => none

/-- A job stored a payload for an identifier at a point in time, after the data service had given it
that payload for that identifier. -/
def StoredAt (c : ApiClient) (t : Job) (time : Instant) (id : String) (v : Bytes) : Prop :=
  ∃ before e after data, t.log = before ++ ⟨time, e⟩ :: after ∧ deposited? e = some data ∧
    data.get? id = some v ∧ Given c (before.map Timed.exchanged) id v

theorem StoredAt.onward {c : ApiClient} {t t' : Job} {time : Instant} {id : String} {v : Bytes}
    (stored : StoredAt c t time id v) (onward : t.Onward t') : StoredAt c t' time id v := by
  obtain ⟨before, e, after, data, log, deposited, payload, given⟩ := stored
  obtain ⟨more, log', -⟩ := onward.more
  refine ⟨before, e, after ++ more, data, ?_, deposited, payload, given⟩
  rw [log', log, List.append_assoc, List.cons_append]

variable {κ : Type} {c : ApiClient} {handler : Handler κ ApiClient.requests}

def serving (c : ApiClient) (handler : Handler κ ApiClient.requests) :
    Setting (FeedState × κ) jobs FeedResult where
  toHandler := (RunningFeed.machine ⟨handler, c.fetch⟩).toHandler
  starts _ s p :=
    (∃ started tier, p = RunningFeed.refresh ⟨handler, c.fetch⟩ s.1.plan started tier) ∨
    (∃ readThrough id, p = RunningFeed.reading ⟨handler, c.fetch⟩ .got (get readThrough id)) ∨
    ∃ ids, p = RunningFeed.reading ⟨handler, c.fetch⟩ .lookedUp (getMultiple ids)
  changes now s s' := s'.1.slice = s.1.slice ∧
    (s'.1.storage.store = s.1.storage.store ∨
      s'.1.storage.store = s.1.storage.store.purge now)

/-! ### One request -/

section Handled

variable (c handler)

private theorem handled_step (t : Job) (now : Instant) (step : Refresh.Op) (s : FeedState × κ) :
    (t.handled (serving c handler).toHandler now (.inl (.inl step)) s).2.1 =
      (FeedState.startStep now t.cancelled step s.1).2 :=
  t.handled_of (serving c handler).toHandler now (.inl (.inl step)) s (·.2.1 = _)
    (FeedState.resumeStep_state now t.cancelled step s.1) rfl

private theorem handled_store (t : Job) (now : Instant) (chunk : Payloads) (s : FeedState × κ) :
    t.handled (serving c handler).toHandler now (.inl (.inl (.store chunk))) s =
      (.ofAnswer? (s.1.storage.write s.1.slice now chunk).1,
        { s.1 with storage := (s.1.storage.write s.1.slice now chunk).2 }, s.2) :=
  t.handled_of (serving c handler).toHandler now (.inl (.inl (.store chunk))) s (· = _) rfl rfl

private theorem handled_write (t : Job) (now : Instant) (data : Payloads) (s : FeedState × κ) :
    t.handled (serving c handler).toHandler now (.inl (.inr (.write data))) s =
      (.ofAnswer? (s.1.storage.write s.1.slice now data).1,
        { s.1 with storage := (s.1.storage.write s.1.slice now data).2 }, s.2) :=
  t.handled_of (serving c handler).toHandler now (.inl (.inr (.write data))) s (· = _) rfl rfl

private theorem handled_read (t : Job) (now : Instant) (ids : List String) (s : FeedState × κ) :
    t.handled (serving c handler).toHandler now (.inl (.inr (.read ids))) s =
      (.ofAnswer? (s.1.storage.read s.1.slice now ids).1,
        { s.1 with storage := (s.1.storage.read s.1.slice now ids).2 }, s.2) :=
  t.handled_of (serving c handler).toHandler now (.inl (.inr (.read ids))) s (· = _) rfl rfl

private theorem handled_client (t : Job) (now : Instant) (op : ApiClient.requests.Op)
    (s : FeedState × κ) :
    (t.handled (serving c handler).toHandler now (.inr op) s).2.1 = s.1 :=
  t.handled_of (serving c handler).toHandler now (.inr op) s (·.2.1 = _) rfl rfl

end Handled

private theorem handled_slice (t : Job) (now : Instant) (op : jobs.Op) (s : FeedState × κ) :
    (t.handled (serving c handler).toHandler now op s).2.1.slice = s.1.slice := by
  match op with
  | .inl (.inl step) =>
    exact (congrArg FeedState.slice (handled_step c handler t now step s)).trans
      (FeedState.startStep_slice now t.cancelled step s.1)
  | .inl (.inr (.read ids)) => exact congrArg (·.2.1.slice) (handled_read c handler t now ids s)
  | .inl (.inr (.write data)) => exact congrArg (·.2.1.slice) (handled_write c handler t now data s)
  | .inr op => exact congrArg FeedState.slice (handled_client c handler t now op s)

private theorem handled_storage (t : Job) (now : Instant) (op : jobs.Op) (s : FeedState × κ) :
    (t.handled (serving c handler).toHandler now op s).2.1.storage = s.1.storage ∨
      (∃ ids, (t.handled (serving c handler).toHandler now op s).2.1.storage =
        (s.1.storage.read s.1.slice now ids).2) ∨
      ∃ data, (t.handled (serving c handler).toHandler now op s).2.1.storage =
          (s.1.storage.write s.1.slice now data).2 ∧
        ((s.1.storage.write s.1.slice now data).1 = some (.ok ()) →
          ∃ a, (t.handled (serving c handler).toHandler now op s).1 = .answer a ∧
            deposited? ⟨op, a⟩ = some data) := by
  match op with
  | .inl (.inl step) =>
    by_cases stores : ∃ chunk, step = .store chunk
    · obtain ⟨chunk, rfl⟩ := stores
      have whole := handled_store c handler t now chunk s
      refine .inr (.inr ⟨chunk, congrArg (·.2.1.storage) whole, fun written => ⟨.ok (), ?_, rfl⟩⟩)
      refine (congrArg Prod.fst whole).trans ?_
      rw [written]
      rfl
    · refine .inl ((congrArg FeedState.storage (handled_step c handler t now step s)).trans ?_)
      exact FeedState.startStep_storage now t.cancelled s.1 fun chunk same => stores ⟨chunk, same⟩
  | .inl (.inr (.read ids)) =>
    exact .inr (.inl ⟨ids, congrArg (·.2.1.storage) (handled_read c handler t now ids s)⟩)
  | .inl (.inr (.write data)) =>
    have whole := handled_write c handler t now data s
    refine .inr (.inr ⟨data, congrArg (·.2.1.storage) whole, fun written => ⟨.ok (), ?_, rfl⟩⟩)
    refine (congrArg Prod.fst whole).trans ?_
    rw [written]
    rfl
  | .inr op => exact .inl (congrArg FeedState.storage (handled_client c handler t now op s))

private theorem handled_entry (t : Job) (now : Instant) (op : jobs.Op) (s : FeedState × κ)
    {k : String} {e : Cache.Entry}
    (entry : (t.handled (serving c handler).toHandler now op s).2.1.storage.store.entries.get? k =
      some e) :
    s.1.storage.store.entries.get? k = some e ∨ ∃ a data id,
      (t.handled (serving c handler).toHandler now op s).1 = .answer a ∧
        deposited? ⟨op, a⟩ = some data ∧ data.get? id = some e.value ∧
        k = Cache.key s.1.slice.scope id ∧ e.expires = Instant.after now s.1.slice.ttl := by
  rcases handled_storage t now op s with same | ⟨ids, read⟩ | ⟨data, wrote, told⟩
  · rw [same] at entry
    exact .inl entry
  · rw [read] at entry
    exact .inl (Storage.read_entry entry)
  · rw [wrote] at entry
    rcases Storage.write_entry entry with old | ⟨written, id, here, payload, expires⟩
    · exact .inl old
    · obtain ⟨a, answered, deposited⟩ := told written
      exact .inr ⟨a, data, id, answered, deposited, payload, here, expires⟩

private theorem handled_found (t : Job) (now : Instant) (s : FeedState × κ) {op : jobs.Op}
    {a : jobs.Answer op} {ids : List String} {lookup : Cache.Lookup}
    (given : (t.handled (serving c handler).toHandler now op s).1.answer? = some a)
    (found : (⟨op, a⟩ : Exchanged jobs) = ⟨.inl (.inr (.read ids)), .ok lookup⟩)
    {id : String} {v : Bytes} (payload : lookup.found.get? id = some v) :
    ∃ e, s.1.storage.store.entries.get? (Cache.key s.1.slice.scope id) = some e ∧ e.value = v ∧
      now < e.expires := by
  cases found
  have whole := handled_read c handler t now ids s
  have told := (congrArg (·.1.answer?) whole).symm.trans given
  rcases s.1.storage.read_cases s.1.slice now ids with ⟨e, refused⟩ | answered
  · rw [refused] at told
    cases told
  · rw [answered] at told
    cases told
    exact Cache.read_found payload

/-! ### One move -/

private theorem written_of_deposited {op : jobs.Op} {a : jobs.Answer op} {data : Payloads}
    (deposited : deposited? ⟨op, a⟩ = some data) : written? op = some data := by
  rw [deposited?.eq_def] at deposited
  split at deposited
  · rename_i same
    cases same
    exact deposited
  · rename_i same
    cases same
    exact deposited
  · cases deposited

private theorem move_slice (t : Job) (now : Instant) (s : FeedState × κ) :
    (t.move (serving c handler).toHandler now s).2.1.slice = s.1.slice := by
  rcases t.move_cases (serving c handler).toHandler now s with still | ⟨op, next, -, -, moved⟩
  · rw [still]
  · rw [moved]
    exact handled_slice t now op s

private theorem move_entry {t : Job} (honest : ∀ op next, t.rest = .ask op next →
      Honest c t.history op) (now : Instant) (s : FeedState × κ) {k : String} {e : Cache.Entry}
    (entry : (t.move (serving c handler).toHandler now s).2.1.storage.store.entries.get? k =
      some e) :
    s.1.storage.store.entries.get? k = some e ∨
      ∃ id, k = Cache.key s.1.slice.scope id ∧ e.expires = Instant.after now s.1.slice.ttl ∧
        StoredAt c (t.move (serving c handler).toHandler now s).1 now id e.value := by
  rcases t.move_cases (serving c handler).toHandler now s with still | ⟨op, next, asks, -, moved⟩
  · rw [still] at entry
    exact .inl entry
  · rw [moved] at entry ⊢
    rcases handled_entry t now op s entry with
      old | ⟨a, data, id, answered, deposited, payload, here, expires⟩
    · exact .inl old
    · have given := honest op next asks data (written_of_deposited deposited) id _ payload
      rw [answered]
      exact .inr ⟨id, here, expires, t.log, _, [], data, rfl, deposited, payload, given⟩

/-! ### Any number of jobs -/

variable {s : FeedState × κ} {w w' : System (FeedState × κ) jobs FeedResult}

private theorem honest_jobs (reached : (serving c handler).Reaches s w) :
    ∀ t ∈ w.threads, ∀ op next, t.rest = .ask op next → Honest c t.history op := by
  intro t member op next asks
  obtain ⟨⟨_, _, started⟩, after⟩ := reached.after t member
  rw [asks] at after
  rcases started with ⟨began, tier, origin⟩ | ⟨readThrough, id, origin⟩ | ⟨ids, origin⟩
  · rw [origin] at after
    exact ((obeys_refresh c handler _ began tier).after after).1
  · rw [origin] at after
    exact ((obeys_getJob c handler readThrough id).after after).1
  · rw [origin] at after
    exact ((obeys_getMultipleJob c handler ids).after after).1

def Stored (c : ApiClient) (threads : List Job) (time : Instant) (id : String) (v : Bytes) : Prop :=
  ∃ t ∈ threads, StoredAt c t time id v

theorem Stored.next {time : Instant} {id : String} {v : Bytes}
    (stored : Stored c w.threads time id v) (next : (serving c handler).Next w w') :
    Stored c w'.threads time id v := by
  obtain ⟨t, member, here⟩ := stored
  obtain ⟨t', member', onward⟩ := next.kept member
  exact ⟨t', member', here.onward onward⟩

/-- A payload is fresh for an identifier if it was stored for it and its time to live has not passed
since then. -/
def Fresh (c : ApiClient) (ttl : Duration) (threads : List Job) (time : Instant) (id : String)
    (v : Bytes) : Prop :=
  ∃ stored, Stored c threads stored id v ∧ stored ≤ time ∧ time < Instant.after stored ttl

/-- An entry under the key of an identifier, stored when its expiry tells. -/
def Backed (c : ApiClient) (slice : Cache.Slice) (w : System (FeedState × κ) jobs FeedResult)
    (k : String) (e : Cache.Entry) : Prop :=
  ∃ id stored, k = Cache.key slice.scope id ∧ Stored c w.threads stored id e.value ∧
    stored ≤ w.now ∧ e.expires = Instant.after stored slice.ttl

/-- What is true of a feed with this slice at any time: every entry is backed, and every read found
what was fresh when it was made. -/
structure Sound (c : ApiClient) (slice : Cache.Slice) (w : System (FeedState × κ) jobs FeedResult) :
    Prop where
  same : w.state.1.slice = slice
  entries : ∀ k e, w.state.1.storage.store.entries.get? k = some e → Backed c slice w k e
  reads : ∀ t ∈ w.threads, ∀ e ∈ t.log, ∀ ids lookup,
    e.exchanged = ⟨.inl (.inr (.read ids)), .ok lookup⟩ → ∀ id v, lookup.found.get? id = some v →
      Fresh c slice.ttl w.threads e.time id v

theorem Backed.next {slice : Cache.Slice} {k : String} {e : Cache.Entry}
    (backed : Backed c slice w k e) (next : (serving c handler).Next w w') :
    Backed c slice w' k e := by
  obtain ⟨id, stored, here, known, past, expires⟩ := backed
  exact ⟨id, stored, here, known.next next, Nat.le_trans past next.now_le, expires⟩

theorem Fresh.next {ttl : Duration} {time : Instant} {id : String} {v : Bytes}
    (fresh : Fresh c ttl w.threads time id v) (next : (serving c handler).Next w w') :
    Fresh c ttl w'.threads time id v := by
  obtain ⟨stored, known, past, before⟩ := fresh
  exact ⟨stored, known.next next, past, before⟩

theorem Backed.fresh {slice : Cache.Slice} {id : String} {e : Cache.Entry}
    (backed : Backed c slice w (Cache.key slice.scope id) e) (alive : w.now < e.expires) :
    Fresh c slice.ttl w.threads w.now id e.value := by
  obtain ⟨id', stored, same, known, past, expires⟩ := backed
  obtain rfl : id = id' := (String.append_right_inj _).mp same
  rw [expires] at alive
  exact ⟨stored, known, past, alive⟩

private theorem next_slice (next : (serving c handler).Next w w') :
    w'.state.1.slice = w.state.1.slice := by
  cases next with
  | pass later => rfl
  | start may => rfl
  | cancel found => rfl
  | @move i t found => exact move_slice t w.now w.state
  | change may => exact may.1

private theorem next_entry (honest : ∀ t ∈ w.threads, ∀ op next, t.rest = .ask op next →
      Honest c t.history op) (next : (serving c handler).Next w w') {k : String} {e : Cache.Entry}
    (entry : w'.state.1.storage.store.entries.get? k = some e) :
    w.state.1.storage.store.entries.get? k = some e ∨ Backed c w.state.1.slice w' k e := by
  cases next with
  | pass later => exact .inl entry
  | start may => exact .inl entry
  | cancel found => exact .inl entry
  | @move i t found =>
    rcases move_entry (honest t (List.mem_of_getElem? found)) w.now w.state entry with
      old | ⟨id, here, expires, stored⟩
    · exact .inl old
    · have inside : i < w.threads.length := (List.getElem?_eq_some_iff.mp found).1
      refine .inr ⟨id, w.now, here, ⟨_, List.mem_set inside _, stored⟩, Nat.le_refl _, expires⟩
  | change may =>
    left
    rcases may.2 with same | purged
    · rw [← same]
      exact entry
    · rw [purged] at entry
      exact Cache.purge_entry entry

theorem Sound.next {slice : Cache.Slice} (sound : Sound c slice w)
    (honest : ∀ t ∈ w.threads, ∀ op next, t.rest = .ask op next → Honest c t.history op)
    (next : (serving c handler).Next w w') : Sound c slice w' where
  same := (next_slice next).trans sound.same
  entries k e entry := by
    rcases next_entry honest next entry with old | backed
    · exact (sound.entries k e old).next next
    · rw [sound.same] at backed
      exact backed
  reads t' member e logged ids lookup read id v payload := by
    rcases next.mem_log member logged with ⟨t, old, before⟩ | ⟨t, old, op, a, rfl, given⟩
    · exact (sound.reads t old e before ids lookup read id v payload).next next
    -- a read changes no thread but its own, so what backed the entry before still does
    · obtain ⟨entry, stands, rfl, alive⟩ := handled_found t w.now w.state given read payload
      rw [sound.same] at stands
      exact ((sound.entries _ _ stands).fresh alive).next next

/-- A feed that starts with nothing in its store is sound at any time. -/
theorem sound_of_reaches (fresh : s.1.storage = .empty) (reached : (serving c handler).Reaches s w) :
    Sound c s.1.slice w := by
  obtain ⟨now, run⟩ := reached
  induction run with
  | refl =>
    refine ⟨rfl, fun k e entry => ?_, fun _ member => nomatch member⟩
    rw [fresh] at entry
    cases entry
  | tail before next ih => exact ih.next (honest_jobs ⟨now, before⟩) next

/-! ### What is returned -/

/-- A job has returned a payload for an identifier: it read this one, or it read many and found this
one among them. -/
def Returned (c : ApiClient) (handler : Handler κ ApiClient.requests) (t : Job) (id : String)
    (v : Bytes) : Prop :=
  (∃ readThrough status,
    t.origin = RunningFeed.reading ⟨handler, c.fetch⟩ .got (get readThrough id) ∧
      t.rest = .done (.got (.ok (v, status)))) ∨
  ∃ ids lookup,
    t.origin = RunningFeed.reading ⟨handler, c.fetch⟩ .lookedUp (getMultiple ids) ∧
      t.rest = .done (.lookedUp (.ok lookup)) ∧ lookup.found.get? id = some v

private theorem log_of_lastAccess {t : Job} {e : Exchanged Cache.accesses}
    (last : LastAccess t.history e) :
    ∃ before, t.log = before ++ [⟨t.latest, .inl (.inr e.op), e.answer⟩] := by
  rw [LastAccess, Thread.history, List.getLast?_map, Option.map_eq_some_iff] at last
  obtain ⟨entry, stands, same⟩ := last
  obtain ⟨before, log⟩ := List.getLast?_eq_some_iff.mp stands
  refine ⟨before, ?_⟩
  rw [log, Thread.latest, stands, ← same]
  rfl

variable {slice : Cache.Slice}

private theorem fresh_of_read (sound : Sound c slice w) {t : Job} (member : t ∈ w.threads)
    {ids : List String} {lookup : Cache.Lookup}
    (last : LastAccess t.history ⟨.read ids, .ok lookup⟩) {id : String} {v : Bytes}
    (payload : lookup.found.get? id = some v) :
    Fresh c slice.ttl w.threads t.latest id v := by
  obtain ⟨before, log⟩ := log_of_lastAccess last
  refine sound.reads t member ⟨t.latest, _⟩ ?_ ids lookup rfl id v payload
  rw [log]
  exact List.mem_append_right _ List.mem_cons_self

private theorem fresh_of_write (lasting : 0 < slice.ttl.nanos) {t : Job} (member : t ∈ w.threads)
    {promise : List (Exchanged jobs) → FeedResult → Prop}
    (obeys : Obeys (Honest c) promise [] t.origin) (after : t.origin.After t.history t.rest)
    {data : Payloads} (last : LastAccess t.history ⟨.write data, .ok ()⟩) {id : String} {v : Bytes}
    (payload : data.get? id = some v) : Fresh c slice.ttl w.threads t.latest id v := by
  obtain ⟨before, log⟩ := log_of_lastAccess last
  rw [Thread.history, log, List.map_append] at after
  -- the write was honest when it was asked, so the payload was given before it
  obtain ⟨next, until_, -⟩ := after.cut
  have given := (obeys.after until_).1 data rfl id v payload
  refine ⟨t.latest, ⟨t, member, before, _, [], data, log, rfl, payload, given⟩, Nat.le_refl _, ?_⟩
  exact Nat.lt_add_of_pos_right lasting

private theorem ttl_pos {config : FeedConfig} (valid : config.validate = .ok ()) :
    0 < (sliceOf config).ttl.nanos := by
  have timed : config.ttlSecs ≠ 0 := (FeedConfig.validate_eq_ok_iff.mp valid).lasting
  have positive : 0 < config.ttlSecs.toNat := UInt64.pos_iff_ne_zero.mpr timed
  show 0 < min (config.ttlSecs.toNat * nanosPerSecond) Duration.maxNanos
  refine Nat.lt_min.mpr ⟨Nat.mul_pos positive (by decide), by decide⟩

/-- Whatever is returned is fresh. However refreshes and reads of a feed are interleaved and whatever
its client is answered, a job returns a payload for an identifier only if some job stored this very
payload for this identifier, as the body of an answer of success to a request for it had it, at a time
from which on the time to live has not passed. -/
theorem payloads_fresh {config : FeedConfig} (valid : config.validate = .ok ())
    (handler : Handler κ ApiClient.requests)
    {ranked supplementary : Option Ranking} {bus : EventBus} {k : κ}
    (reached : (serving c handler).Reaches
      (FeedState.ofConfig config c.mode ranked supplementary bus, k) w) :
    ∀ t ∈ w.threads, ∀ id v, Returned c handler t id v →
      Fresh c config.ttl w.threads t.latest id v := by
  intro t member id v returned
  have sound := sound_of_reaches rfl reached
  obtain ⟨-, after⟩ := reached.after t member
  rcases returned with ⟨readThrough, status, origin, ended⟩ | ⟨ids, lookup, origin, ended, found⟩
  · have obeys := obeys_getJob c handler readThrough id
    rw [← origin] at obeys
    have kept := obeys.after after
    rw [ended] at kept
    obtain ⟨e, last, ⟨ids, lookup, rfl, payload⟩ | ⟨data, rfl, payload⟩⟩ := kept v status rfl
    · exact fresh_of_read sound member last payload
    · exact fresh_of_write (ttl_pos valid) member obeys after last payload
  · have obeys := obeys_getMultipleJob c handler ids
    rw [← origin] at obeys
    have kept := obeys.after after
    rw [ended] at kept
    exact fresh_of_read sound member (kept lookup rfl) found

def oneByte : Handler Unit ApiClient.requests :=
  ⟨fun _ _ op s => (.answer (reply op), s), fun _ _ op s => (.answer (reply op), s)⟩
where
  reply : (op : ApiClient.requests.Op) → ApiClient.requests.Answer op
    | .inl (.available _) => [Credential.unkeyed]
    | .inr (.inl .isCancelled) => false
    | .inr (.inl (.acquire _)) => Signal.elapsed
    | .inr (.inl (.tryAcquire _)) => true
    | .inr (.inl (.markFailed _)) => ()
    | .inr (.inl (.markSucceeded _)) => ()
    | .inr (.inr (.report _)) => ()
    | .inr (.inr (.draw _)) => (0 : Nat)
    | .inr (.inr (.pause _)) => Signal.elapsed
    | .inr (.inr (.send _)) => Exchange.Sent.answered 200
    | .inr (.inr .receive) => Exchange.Received.body [49]

def coinFeed : FeedConfig := { name := "coins", endpoint := { path := "/c/\x7b\x7bid\x7d\x7d" } }

def coinClient : ApiClient :=
  ⟨"coins", ⟨coinFeed.endpoint, ⟨coinFeed.endpoint.path, .single⟩⟩, .wait, {}⟩

def readThrough : Job × (FeedState × Unit) :=
  (fun x => x.1.move (serving coinClient oneByte).toHandler 0 x.2)^[9]
    (.ofProgram (RunningFeed.reading ⟨oneByte, coinClient.fetch⟩ .got (get true "a")) 0,
      FeedState.ofConfig coinFeed .single none none (.ofCapacity 1), ())

theorem payloads_fresh_readThrough :
    coinFeed.validate = .ok () ∧ Returned coinClient oneByte readThrough.1 "a" [49] ∧
      Fresh coinClient coinFeed.ttl [readThrough.1] readThrough.1.latest "a" [49] := by
  have valid : coinFeed.validate = .ok () := rfl
  have ended : readThrough.1.rest = .done (.got (.ok ([49], .miss))) := rfl
  have returned : Returned coinClient oneByte readThrough.1 "a" [49] :=
    .inl ⟨true, .miss, rfl, ended⟩
  have reached : (serving coinClient oneByte).Reaches
      (FeedState.ofConfig coinFeed coinClient.mode none none (.ofCapacity 1), ())
      ⟨0, readThrough.2, [readThrough.1]⟩ :=
    Setting.reaches_iterate (A := serving coinClient oneByte) (.inr (.inl ⟨true, "a", rfl⟩)) 9
  refine ⟨valid, returned, ?_⟩
  exact payloads_fresh valid oneByte reached _ List.mem_cons_self _ _ returned

end MarketFeed.Feed
