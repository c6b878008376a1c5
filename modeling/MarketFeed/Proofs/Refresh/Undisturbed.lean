import MarketFeed.Proofs.Refresh.Readiness
import MarketFeed.Proofs.Refresh.Stores
/-!
Refreshes of one feed that are left to themselves: nothing else touches the feed, its store takes every
chunk, and the client gives the same answer to the same chunk. Then every answer that a refresh gets is
settled beforehand, however the refreshes are interleaved and however long each wait lasts.
-/

set_option autoImplicit false
set_option relaxedAutoImplicit false

namespace MarketFeed

namespace Simulation

def Step.Gives {α : Type} (r : Step α) (a : α) : Prop := r = .answer a ∨ ∃ until_, r = .wait until_

theorem Step.Gives.eq {α : Type} {r : Step α} {a b : α} (gives : r.Gives a)
    (answered : r.answer? = some b) : b = a := by
  rcases gives with rfl | ⟨until_, rfl⟩
  · exact (Option.some.inj answered).symm
  · cases answered

theorem Thread.uncancelled_of_move {σ α : Type} {S : Signature} {h : Handler σ S} {now : Instant}
    {t : Thread S α} {s : σ} (uncancelled : (t.move h now s).1.cancelled = false) :
    t.cancelled = false := by
  rcases t.move_cases h now s with still | ⟨op, next, -, -, moved⟩
  · rw [still] at uncancelled
    exact uncancelled
  · rw [moved] at uncancelled
    cases done : (t.handled h now op s).1 with
    | cancelling a =>
      rw [done] at uncancelled
      cases uncancelled
    | _ =>
      rw [done] at uncancelled
      exact uncancelled

end Simulation

namespace Refresh

open Program Simulation

variable {κ : Type} {client : Handler κ Client.fetches} {f g : FeedState}
  {reply : List String → Except FetchError Payloads} {now : Instant}

/-! ### What a feed answers -/

/-- What refreshes leave of a feed as it is: its plan, its part of the store, its sources, and that the
store does not refuse to be written. -/
structure Steady (f g : FeedState) : Prop where
  plan : g.plan = f.plan
  slice : g.slice = f.slice
  source : g.source = f.source
  accepts : g.storage.writeFails = false

theorem Steady.startStep (steady : Steady f g) (now : Instant) (cancelled : Bool) (op : Op) :
    Steady f (FeedState.startStep now cancelled op g).2 where
  plan := (FeedState.startStep_plan now cancelled op g).trans steady.plan
  slice := (FeedState.startStep_slice now cancelled op g).trans steady.slice
  source := (FeedState.startStep_source now cancelled op g).trans steady.source
  accepts := by
    by_cases stores : ∃ chunk, op = .store chunk
    · obtain ⟨chunk, rfl⟩ := stores
      rcases FeedState.startStep_store now cancelled chunk g with same | ⟨store, -, written⟩
      · rw [same]
        exact steady.accepts
      · rw [written]
        exact steady.accepts
    · rw [FeedState.startStep_storage now cancelled g fun chunk same => stores ⟨chunk, same⟩]
      exact steady.accepts

/-- A point in time from which the expiry of what is stored can be told. -/
def Tells (f : FeedState) (now : Instant) : Prop := Instant.after now f.slice.ttl < Instant.horizon

instance (f : FeedState) (now : Instant) : Decidable (Tells f now) :=
  inferInstanceAs (Decidable (_ < _))

theorem Tells.mono {later : Instant} (tells : Tells f later) (le : now ≤ later) : Tells f now :=
  Nat.lt_of_le_of_lt (Nat.add_le_add_right le _) tells

theorem Steady.store (steady : Steady f g) (tells : Tells f now) (cancelled : Bool)
    (chunk : Payloads) :
    (FeedState.startStep now cancelled (.store chunk) g).1 =
        Step.answer (α := Except RefreshError Unit) (.ok ()) ∧
      ∀ k, (FeedState.startStep now cancelled (.store chunk) g).2.storage.store.entries.get? k =
        (((f.slice.keyed chunk).get? k).map fun v => ⟨v, Instant.after now f.slice.ttl⟩).or
          (g.storage.store.entries.get? k) := by
  rw [← steady.slice]
  have told : Instant.after now g.slice.ttl < Instant.horizon := by
    rw [steady.slice]
    exact tells
  obtain ⟨store, written, entries⟩ := Storage.write_of_tellable steady.accepts told chunk
  have started : FeedState.startStep now cancelled (.store chunk) g =
      (Step.ofAnswer? (g.storage.write g.slice now chunk).1,
        { g with storage := (g.storage.write g.slice now chunk).2 }) := rfl
  rw [started, written]
  exact ⟨rfl, entries⟩

private theorem Steady.answers (steady : Steady f g) (tells : Tells f now) {op : Op}
    {a : requests.Answer (.inl op)} (settled : answer? f reply (.inl op) = some a)
    (lasting : ∀ d, op ≠ .pause d) (cancelled : Bool) :
    (FeedState.startStep now cancelled op g).1 = .answer a := by
  cases op with
  | ids source limit =>
    cases settled
    rw [FeedState.startStep, steady.source]
    rfl
  | pause d => exact absurd rfl (lasting d)
  | store chunk =>
    cases settled
    exact (steady.store tells cancelled chunk).1
  | publish event => cases settled; rfl
  | markReady => cases settled; rfl
  | finish tier started succeeded => cases settled; rfl
  | breakDown => cases settled

private theorem Steady.start_gives (steady : Steady f g) (tells : Tells f now) {op : Op}
    {a : requests.Answer (.inl op)} (settled : answer? f reply (.inl op) = some a) :
    (FeedState.startStep now false op g).1.Gives a := by
  by_cases pauses : ∃ d, op = .pause d
  · obtain ⟨d, rfl⟩ := pauses
    cases settled
    by_cases brief : d.isZero = true
    · exact .inl (if_pos brief)
    · exact .inr ⟨Instant.timer now d, if_neg brief⟩
  · exact .inl (steady.answers tells settled (fun d same => pauses ⟨d, same⟩) false)

private theorem Steady.resume_answers (steady : Steady f g) (tells : Tells f now) {op : Op}
    {a : requests.Answer (.inl op)} (settled : answer? f reply (.inl op) = some a) :
    (FeedState.resumeStep now false op g).1 = .answer a := by
  by_cases pauses : ∃ d, op = .pause d
  · obtain ⟨d, rfl⟩ := pauses
    cases settled
    rfl
  · have lasting : ∀ d, op ≠ .pause d := fun d same => pauses ⟨d, same⟩
    have same : FeedState.resumeStep now false op g = FeedState.startStep now false op g := by
      cases op with
      | pause d => exact absurd rfl (lasting d)
      | _ => rfl
    rw [same]
    exact steady.answers tells settled lasting false

/-! ### What a thread is answered -/

/-- A client whose answer depends on nothing but the chunk: whatever its state, it gives this answer or
lets wait for it. -/
structure Replies (client : Handler κ Client.fetches)
    (reply : List String → Except FetchError Payloads) : Prop where
  start : ∀ now cancelled ids k,
    (client.start now cancelled (.chunk ids) k).1.Gives (reply ids : Except FetchError Payloads)
  resume : ∀ now cancelled ids k,
    (client.resume now cancelled (.chunk ids) k).1.Gives (reply ids : Except FetchError Payloads)

def undisturbed (client : Handler κ Client.fetches) :
    Setting (FeedState × κ) requests (Except RefreshError Nat) where
  toHandler := (refreshing client).toHandler
  starts := (refreshing client).starts
  changes _ _ _ := False

variable {t : RefreshThread} {s : FeedState × κ} {op : requests.Op}

theorem answer?_eq_none (none_left : answer? f reply op = none) : op = .inl .breakDown := by
  match op, none_left with
  | .inl .breakDown, _ => rfl

theorem handled_gives (replies : Replies client reply) (steady : Steady f s.1)
    (tells : Tells f now) (uncancelled : t.cancelled = false) {a : requests.Answer op}
    (settled : answer? f reply op = some a) :
    (t.handled (undisturbed client).toHandler now op s).1.Gives a := by
  refine t.handled_of (undisturbed client).toHandler now op s (·.1.Gives a) ?_ ?_
  · rw [uncancelled]
    match op with
    | .inl op => exact .inl (steady.resume_answers tells settled)
    | .inr (.chunk ids) =>
      cases settled
      exact replies.resume now false ids s.2
  · rw [uncancelled]
    match op with
    | .inl op => exact steady.start_gives tells settled
    | .inr (.chunk ids) =>
      cases settled
      exact replies.start now false ids s.2

/-- A client that has its answer as soon as its first wait is over. -/
def Prompt (client : Handler κ Client.fetches) (reply : List String → Except FetchError Payloads) :
    Prop :=
  ∀ now ids k,
    (client.resume now false (.chunk ids) k).1 = .answer (reply ids : Except FetchError Payloads)

theorem handled_answers (prompt : Prompt client reply) (steady : Steady f s.1) (tells : Tells f now)
    (uncancelled : t.cancelled = false) (waiting : t.pose = .waiting) {a : requests.Answer op}
    (settled : answer? f reply op = some a) :
    (t.handled (undisturbed client).toHandler now op s).1 = .answer a := by
  rw [Thread.handled, if_pos waiting, uncancelled]
  cases op with
  | inl op => exact steady.resume_answers tells settled
  | inr fetch =>
    obtain ⟨ids⟩ := fetch
    cases settled
    exact prompt now ids s.2

theorem answer?_of_handled (replies : Replies client reply) (steady : Steady f s.1)
    (tells : Tells f now) (uncancelled : t.cancelled = false) {a : requests.Answer op}
    (given : (t.handled (undisturbed client).toHandler now op s).1.answer? = some a) :
    answer? f reply op = some a := by
  cases settled : answer? f reply op with
  | none =>
    cases answer?_eq_none settled
    exact (a : Empty).elim
  | some b => rw [(handled_gives replies steady tells uncancelled settled).eq given]

theorem handled_steady (t : RefreshThread) (now : Instant) (op : requests.Op)
    (steady : Steady f s.1) :
    Steady f (t.handled (undisturbed client).toHandler now op s).2.1 := by
  have same : (undisturbed client).toHandler = (refreshing client).toHandler := rfl
  rw [same]
  rcases op_cases op with ⟨step, feed⟩ | ⟨fetch, asked⟩
  · rw [handled_feed t now s feed]
    exact steady.startStep now t.cancelled step
  · rw [handled_client t now s asked]
    exact steady

theorem move_told (replies : Replies client reply) (steady : Steady f s.1) (tells : Tells f now)
    (uncancelled : t.cancelled = false) (told : Told f reply t.history) :
    Steady f (t.move (undisturbed client).toHandler now s).2.1 ∧
      Told f reply (t.move (undisturbed client).toHandler now s).1.history := by
  rcases t.move_cases (undisturbed client).toHandler now s with
    still | ⟨op, next, asks, present, moved⟩
  · rw [still]
    exact ⟨steady, told⟩
  · rw [moved]
    refine ⟨handled_steady t now op steady, ?_⟩
    rcases t.settled_cases now next (t.handled (undisturbed client).toHandler now op s).1 with
      ⟨a, given, log, -⟩ | ⟨-, log, -⟩
    · rw [Thread.history, log, List.map_append]
      refine List.forall_mem_append.mpr ⟨told, List.forall_mem_singleton.mpr ?_⟩
      exact answer?_of_handled replies steady tells uncancelled given
    · rw [Thread.history, log]
      exact told

theorem move_stores (client : Handler κ Client.fetches) (t : RefreshThread) (steady : Steady f s.1)
    (tells : Tells f now) :
    ((t.move (undisturbed client).toHandler now s).2.1.storage = s.1.storage ∧
        stores f.slice (t.move (undisturbed client).toHandler now s).1.history =
          stores f.slice t.history) ∨
      ∃ chunk next, t.rest = .ask (.inl (.store chunk)) next ∧
        (∀ k, (t.move (undisturbed client).toHandler now s).2.1.storage.store.entries.get? k =
          (((f.slice.keyed chunk).get? k).map fun v => ⟨v, Instant.after now f.slice.ttl⟩).or
            (s.1.storage.store.entries.get? k)) ∧
        stores f.slice (t.move (undisturbed client).toHandler now s).1.history =
          (stores f.slice t.history).union (f.slice.keyed chunk) := by
  have same : (undisturbed client).toHandler = (refreshing client).toHandler := rfl
  rw [same]
  rcases t.move_cases (refreshing client).toHandler now s with
    still | ⟨op, next, asks, present, moved⟩
  · rw [still]
    exact .inl ⟨rfl, rfl⟩
  · rw [moved]
    by_cases storing : ∃ chunk, op = .inl (.store chunk)
    · obtain ⟨chunk, rfl⟩ := storing
      have ⟨answered, entries⟩ := steady.store tells t.cancelled chunk
      have handled : (t.handled (refreshing client).toHandler now (.inl (.store chunk)) s).1 =
          Step.answer (α := Except RefreshError Unit) (.ok ()) :=
        t.handled_of (refreshing client).toHandler now (.inl (.store chunk)) s (·.1 = _) answered
          answered
      refine .inr ⟨chunk, next, asks, ?_, ?_⟩
      · rw [handled_feed t now s rfl]
        exact entries
      · rw [handled]
        exact (congrArg (stores f.slice) (t.history_answered now _ _ _)).trans
          (stores_append_of_some rfl)
    · have idle : ∀ chunk, op ≠ .inl (.store chunk) := fun chunk same => storing ⟨chunk, same⟩
      refine .inl ⟨handled_storage t now s idle, ?_⟩
      rcases t.settled_cases now next (t.handled (refreshing client).toHandler now op s).1 with
        ⟨a, -, log, -⟩ | ⟨-, log, -⟩
      · rw [Thread.history, log, List.map_append]
        exact stores_append_of_none (storedIn_eq_none idle a)
      · rw [Thread.history, log, Thread.history]

end Refresh

end MarketFeed
