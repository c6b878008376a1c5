import MarketFeed.Proofs.EventBus.Mailboxes
import MarketFeed.Table.Lemmas
/-!
Delivery of announcements. The ring of a bus is the end of a log of everything announced; a subscriber
reads the part of the log behind the place where it came. What it receives is what its mailbox says,
whatever the other subscribers do.
-/

set_option autoImplicit false
set_option relaxedAutoImplicit false

namespace MarketFeed.EventBus

def step (b : EventBus) : Call → EventBus
  | .publish event => b.publish event
  | .subscribe name => b.subscribe name
  | .unsubscribe name => b.unsubscribe name
  | .receive name => (b.receive name).2
  | .close => b.close

def run (b : EventBus) (calls : List Call) : EventBus := calls.foldl step b

def answers (name : String) : EventBus → List Call → List Received
  | _, [] => []
  | b, call :: rest =>
    if call = .receive name then (b.receive name).1 :: answers name (b.step call) rest
    else answers name (b.step call) rest

theorem run_concat (b : EventBus) (calls : List Call) (call : Call) :
    b.run (calls ++ [call]) = (b.run calls).step call := by
  rw [run, List.foldl_append]
  rfl

theorem receive_moves (b : EventBus) (name : String) :
    (b.receive name).2 = b ∨
      ∃ position, (b.receive name).2 = { b with cursors := b.cursors.insert name position } := by
  rw [receive]
  split
  · exact .inl rfl
  · dsimp only
    split
    · exact .inr ⟨_, rfl⟩
    · exact .inl rfl

@[simp]
theorem isOpen_publish (b : EventBus) (event : RefreshEvent) : (b.publish event).isOpen = b.isOpen := by
  rw [publish]
  split <;> rfl

@[simp]
theorem cursors_publish (b : EventBus) (event : RefreshEvent) :
    (b.publish event).cursors = b.cursors := by
  rw [publish]
  split <;> rfl

/-- What a call does to a bus: something is announced to somebody, the bus is closed, or cursors move, but
none of anybody else. -/
theorem step_cases (b : EventBus) (call : Call) :
    (∃ event, call = .publish event ∧ b.isOpen = true ∧ b.cursors.isEmpty = false ∧
      b.step call = b.publish event) ∨
    (call = .close ∧ b.step call = b.close) ∨
    (call ≠ .close ∧ (b.isOpen = true → b.cursors.isEmpty = false → call.event? = none) ∧
      ∃ cursors, b.step call = { b with cursors := cursors } ∧
        ∀ name, call ≠ .subscribe name → call ≠ .unsubscribe name → call ≠ .receive name →
          cursors.get? name = b.cursors.get? name) := by
  cases call with
  | publish event =>
    by_cases ready : (b.isOpen && !b.cursors.isEmpty) = true
    · have parts := Bool.and_eq_true_iff.mp ready
      exact .inl ⟨event, rfl, parts.1, by simpa using parts.2, rfl⟩
    · refine .inr <| .inr ⟨nofun, ?_, b.cursors, if_neg ready, fun _ _ _ _ => rfl⟩
      intro opened heard
      simp [opened, heard] at ready
  | subscribe other =>
    refine .inr <| .inr ⟨nofun, fun _ _ => rfl, ?_⟩
    rw [step, subscribe]
    split
    · refine ⟨_, rfl, fun name comes _ _ => ?_⟩
      rw [Table.get?_insert, if_neg fun same => comes (congrArg Call.subscribe same.symm)]
    · exact ⟨b.cursors, rfl, fun _ _ _ _ => rfl⟩
  | unsubscribe other =>
    refine .inr <| .inr ⟨nofun, fun _ _ => rfl, _, rfl, fun name _ leaves _ => ?_⟩
    rw [Table.get?_erase, if_neg fun same => leaves (congrArg Call.unsubscribe same.symm)]
  | receive other =>
    refine .inr <| .inr ⟨nofun, fun _ _ => rfl, ?_⟩
    rw [step]
    rcases receive_moves b other with unmoved | ⟨position, moved⟩
    · exact ⟨b.cursors, unmoved, fun _ _ _ _ => rfl⟩
    · refine ⟨_, moved, fun name _ _ asks => ?_⟩
      rw [Table.get?_insert, if_neg fun same => asks (congrArg Call.receive same.symm)]
  | close => exact .inr <| .inl ⟨rfl, rfl⟩

/-! ### Places -/

theorem placesFor_least (capacity : Nat) :
    (placesFor capacity).isPowerOfTwo ∧ max capacity 1 ≤ placesFor capacity ∧
      ∀ n : Nat, n.isPowerOfTwo → max capacity 1 ≤ n → placesFor capacity ≤ n := by
  rw [placesFor]
  split
  next few =>
    refine ⟨Nat.isPowerOfTwo_one, by omega, ?_⟩
    intro n _ covers
    omega
  next several =>
    have filled : capacity - 1 ≠ 0 := by omega
    have above : capacity - 1 < Nat.pow 2 ((capacity - 1).log2 + 1) := Nat.lt_log2_self
    refine ⟨⟨(capacity - 1).log2 + 1, rfl⟩, by omega, ?_⟩
    rintro n ⟨k, rfl⟩ covers
    have exponent : (capacity - 1).log2 < k := by
      rw [Nat.log2_lt filled]
      omega
    exact Nat.pow_le_pow_right (by decide) exponent

theorem placesFor_pos (capacity : Nat) : 0 < placesFor capacity := by
  have covers := (placesFor_least capacity).2.1
  omega

/-! ### The ring as the end of a log -/

/-- A ring of `r` places holds the end of a log of everything announced. -/
structure Holds (r : Nat) (log : List RefreshEvent) (b : EventBus) : Prop where
  places : b.places = r
  count : b.published = log.length
  held : b.held = log.drop (log.length - r)

section Ring

variable {r : Nat} {log : List RefreshEvent} {b : EventBus}

theorem Holds.oldest_eq (holds : Holds r log b) : b.oldest = log.length - r := by
  rw [oldest, holds.count, holds.held, List.length_drop]
  omega

theorem Holds.publish (holds : Holds r log b) (event : RefreshEvent) (goes_out : b.isOpen = true)
    (heard : b.cursors.isEmpty = false) : Holds r (log ++ [event]) (b.publish event) := by
  have joined : b.held ++ [event] = (log ++ [event]).drop (log.length - r) := by
    rw [holds.held, List.drop_append_of_le_length (Nat.sub_le _ _)]
  have length := congrArg List.length joined
  simp only [List.length_drop, List.length_append, List.length_singleton] at length
  have ready : (b.isOpen && !b.cursors.isEmpty) = true := by simp [goes_out, heard]
  rw [EventBus.publish, if_pos ready]
  refine ⟨holds.places, ?_, ?_⟩
  · simp [holds.count]
  · show (b.held ++ [event]).drop ((b.held ++ [event]).length - b.places) = _
    rw [joined, List.drop_drop, holds.places]
    congr 1
    simp only [List.length_drop, List.length_append, List.length_singleton]
    omega

theorem Holds.unread (holds : Holds r log b) (cursors : Table Nat) (isOpen : Bool) :
    Holds r log { b with cursors := cursors, isOpen := isOpen } :=
  ⟨holds.places, holds.count, holds.held⟩

/-- Whatever is done with a bus, the log of what it announced only grows. -/
theorem Holds.step (holds : Holds r log b) (call : Call) :
    ∃ more, Holds r (log ++ more) (b.step call) := by
  rcases b.step_cases call with
    ⟨event, -, goes_out, heard, moved⟩ | ⟨-, moved⟩ | ⟨-, -, cursors, moved, -⟩ <;> rw [moved]
  · exact ⟨[event], holds.publish event goes_out heard⟩
  all_goals
    refine ⟨[], ?_⟩
    rw [List.append_nil]
    exact holds.unread _ _

theorem holds_run (capacity : Nat) (calls : List Call) :
    ∃ log, Holds (placesFor capacity) log ((ofCapacity capacity).run calls) := by
  induction calls using List.reverseRecOn with
  | nil => exact ⟨[], rfl, rfl, List.drop_nil.symm⟩
  | append_singleton calls call ih =>
    obtain ⟨log, holds⟩ := ih
    obtain ⟨more, holds⟩ := holds.step call
    rw [run_concat]
    exact ⟨log ++ more, holds⟩

theorem isOpen_run (goes_out : b.isOpen = true) {calls : List Call} (unclosed : .close ∉ calls) :
    (b.run calls).isOpen = true := by
  induction calls using List.reverseRecOn with
  | nil => exact goes_out
  | append_singleton calls call ih =>
    rw [List.mem_append, List.mem_singleton, not_or] at unclosed
    have before := ih unclosed.1
    rw [run_concat]
    rcases (b.run calls).step_cases call with
      ⟨event, -, -, -, moved⟩ | ⟨closed, -⟩ | ⟨-, -, cursors, moved, -⟩
    · rw [moved, isOpen_publish]
      exact before
    · exact absurd closed.symm unclosed.2
    · rw [moved]
      exact before

end Ring

/-! ### A subscriber and its mailbox -/

/-- A bus serves a subscriber as its mailbox says: the log goes on behind `older` with what was
announced since the subscriber came, and the subscriber reads on behind what it has passed. -/
structure Agrees (r : Nat) (name : String) (older : List RefreshEvent) (b : EventBus) (m : Mailbox) :
    Prop where
  holds : Holds r (older ++ m.sent) b
  cursor : b.cursors.get? name = some (older.length + m.passed)
  isOpen : b.isOpen = m.isOpen

section Agreement

variable {r : Nat} {name : String} {older : List RefreshEvent} {b : EventBus} {m : Mailbox}

theorem Agrees.receive (agrees : Agrees r name older b m) :
    b.receive name = match (m.next? r).bind fun i => (m.sent[i]?).map fun event => (i, event) with
      | some (i, event) =>
        (.event event, { b with cursors := b.cursors.insert name (older.length + (i + 1)) })
      | none => (if m.isOpen then .nothingYet else .closed, b) := by
  have oldest := agrees.holds.oldest_eq
  rw [List.length_append] at oldest
  have looked : b.held[max (older.length + m.passed) b.oldest - b.oldest]? =
      m.sent[max m.passed (m.sent.length - r)]? := by
    rw [agrees.holds.held, List.getElem?_drop, ← agrees.holds.oldest_eq,
      List.getElem?_append_right (by omega)]
    congr 1
    omega
  rw [EventBus.receive, agrees.cursor]
  simp only [looked, agrees.isOpen]
  by_cases within : max m.passed (m.sent.length - r) < m.sent.length
  · have found := Mailbox.next?_eq_some_iff.mpr ⟨rfl, within⟩
    have place : max (older.length + m.passed) b.oldest + 1 =
        older.length + (max m.passed (m.sent.length - r) + 1) := by omega
    rw [found, Option.bind_some, List.getElem?_eq_getElem within, place]
    rfl
  · have nothing : m.next? r = none := by
      cases found : m.next? r with
      | none => rfl
      | some i =>
        have place := Mailbox.next?_eq_some_iff.mp found
        omega
    rw [nothing, Option.bind_none, List.getElem?_eq_none (by omega)]

theorem Agrees.answer_eq (agrees : Agrees r name older b m) : (b.receive name).1 = m.answer r := by
  rw [agrees.receive, Mailbox.answer]
  cases m.next? r with
  | none => rfl
  | some i =>
    rw [Option.bind_some, Option.bind_some]
    cases m.sent[i]? <;> rfl

theorem Agrees.receive_step (agrees : Agrees r name older b m) :
    Agrees r name older (b.step (.receive name)) (m.step r name (.receive name)) := by
  rw [EventBus.step, Mailbox.step, if_pos rfl, agrees.receive]
  cases found : m.next? r with
  | none =>
    rw [Option.toList_none, List.append_nil]
    exact agrees
  | some i =>
    have within := (Mailbox.next?_eq_some_iff.mp found).2
    rw [Option.bind_some, List.getElem?_eq_getElem within]
    refine ⟨agrees.holds.unread _ _, ?_, agrees.isOpen⟩
    show (b.cursors.insert name (older.length + (i + 1))).get? name = _
    rw [Table.get?_insert, if_pos rfl, Option.toList_some, Mailbox.passed_concat]

theorem Agrees.step (agrees : Agrees r name older b m) {call : Call} (comes : call ≠ .subscribe name)
    (stays : call ≠ .unsubscribe name) : Agrees r name older (b.step call) (m.step r name call) := by
  have heard := Table.isEmpty_of_get? agrees.cursor
  by_cases own : call = .receive name
  · rw [own]
    exact agrees.receive_step
  rcases b.step_cases call with
    ⟨event, rfl, goes_out, -, moved⟩ | ⟨rfl, moved⟩ | ⟨goes_on, silent, cursors, moved, others⟩
  · have grown := agrees.holds.publish event goes_out heard
    rw [moved, Mailbox.step, if_pos (agrees.isOpen.symm.trans goes_out)]
    refine ⟨?_, ?_, ?_⟩
    · rw [← List.append_assoc]
      exact grown
    · rw [cursors_publish]
      exact agrees.cursor
    · rw [isOpen_publish]
      exact agrees.isOpen
  · rw [moved]
    exact ⟨agrees.holds.unread _ _, agrees.cursor, rfl⟩
  · have idle : m.step r name call = m := by
      rcases Mailbox.step_cases r name m call with
        ⟨event, rfl, opened, -⟩ | ⟨-, asks, -⟩ | ⟨closed, -⟩ | ⟨-, -, -, idle⟩
      · exact absurd (silent (agrees.isOpen.trans opened) heard) (Option.some_ne_none event)
      · exact absurd asks own
      · exact absurd closed goes_on
      · exact idle
    rw [moved, idle]
    exact ⟨agrees.holds.unread _ _, (others name comes stays own).trans agrees.cursor, agrees.isOpen⟩

theorem agrees_subscribe {log : List RefreshEvent} (holds : Holds r log b) (goes_out : b.isOpen = true) :
    Agrees r name log (b.subscribe name) {} := by
  rw [subscribe, if_pos goes_out]
  refine ⟨?_, ?_, goes_out⟩
  · rw [List.append_nil]
    exact holds.unread _ _
  · show (b.cursors.insert name b.published).get? name = _
    rw [Table.get?_insert, if_pos rfl, holds.count]
    rfl

/-- A subscriber stays subscribed during some calls, and does not subscribe again. -/
def Stays (name : String) (calls : List Call) : Prop :=
  ∀ call ∈ calls, call ≠ .subscribe name ∧ call ≠ .unsubscribe name

instance (name : String) (calls : List Call) : Decidable (Stays name calls) :=
  inferInstanceAs (Decidable (∀ call ∈ calls, call ≠ .subscribe name ∧ call ≠ .unsubscribe name))

theorem Agrees.run (agrees : Agrees r name older b {}) {calls : List Call} (stays : Stays name calls) :
    Agrees r name older (b.run calls) (Mailbox.after r name calls) := by
  induction calls using List.reverseRecOn with
  | nil => exact agrees
  | append_singleton calls call ih =>
    have last := stays call (List.mem_append_right calls (List.mem_singleton_self call))
    have before := ih fun other member => stays other (List.mem_append_left [call] member)
    rw [run_concat, Mailbox.after_concat]
    exact before.step last.1 last.2

theorem Agrees.answers_eq (agrees : Agrees r name older b m) {calls : List Call}
    (stays : Stays name calls) : answers name b calls = Mailbox.answers r name m calls := by
  induction calls generalizing b m with
  | nil => rfl
  | cons call rest ih =>
    have first := stays call List.mem_cons_self
    have later := ih (agrees.step first.1 first.2) fun other member =>
      stays other (List.mem_cons_of_mem call member)
    rw [answers, Mailbox.answers, later, agrees.answer_eq]

end Agreement

/-- A subscriber of a ring of `r` places is served during a session, which begins when it comes: what
it receives next, all that it has received, what it can miss, and when there is nothing for it. -/
structure Serves (r : Nat) (name : String) (b : EventBus) (session : List Call) : Prop where
  next : ((b.run session).receive name).1 = (Mailbox.after r name session).answer r
  sent : (Mailbox.after r name session).sent =
    (session.takeWhile (· ≠ .close)).filterMap Call.event?
  events : (answers name b session).filterMap Received.event? =
    (Mailbox.after r name session).taken.filterMap fun i => (Mailbox.after r name session).sent[i]?
  order : Mailbox.InOrder (Mailbox.after r name session)
  buried : ∀ i < (Mailbox.after r name session).passed, i ∉ (Mailbox.after r name session).taken →
    ∃ early late, session = early ++ late ∧
      (Mailbox.after r name early).passed ≤ i ∧ i + r < (Mailbox.after r name early).sent.length
  complete : (∀ early late, session = early ++ late →
      (Mailbox.after r name early).sent.length ≤ (Mailbox.after r name early).passed + r) →
    (Mailbox.after r name session).taken = List.range (Mailbox.after r name session).passed
  empty : (∀ event, ((b.run session).receive name).1 ≠ .event event) →
    (Mailbox.after r name session).passed = (Mailbox.after r name session).sent.length

theorem serves_of_agrees {r : Nat} {name : String} {older : List RefreshEvent} {b : EventBus}
    (agrees : Agrees r name older b {}) (positive : 0 < r) {session : List Call}
    (stays : Stays name session) : Serves r name b session := by
  have next := (agrees.run stays).answer_eq
  have order : Mailbox.InOrder (Mailbox.after r name session) := Mailbox.inOrder_after session
  refine ⟨next, Mailbox.sent_after session, ?_, order, ?_, Mailbox.taken_of_close_behind, ?_⟩
  · rw [agrees.answers_eq stays]
    exact Mailbox.events_after session
  · intro i behind missed
    exact Mailbox.buried behind missed
  · intro nothing
    rw [next] at nothing
    exact (Mailbox.next?_eq_none_iff order.passed_le positive).mp (Mailbox.next?_of_answer nothing)

/-- Whoever subscribes to a bus is served in full, up to what the ring cannot hold, and what it receives
does not depend on the other subscribers, nor on what was done before it came. -/
theorem delivers (capacity : Nat) (name : String) (before session : List Call)
    (unclosed : .close ∉ before) (stays : Stays name session) :
    let r := placesFor capacity
    let b := (ofCapacity capacity).run (before ++ [.subscribe name])
    (r.isPowerOfTwo ∧ max capacity 1 ≤ r ∧
        ∀ n : Nat, n.isPowerOfTwo → max capacity 1 ≤ n → r ≤ n) ∧
      Serves r name b session ∧
      ∀ before' session', .close ∉ before' → Stays name session' →
        session'.filter (Call.reaches name) = session.filter (Call.reaches name) →
        answers name ((ofCapacity capacity).run (before' ++ [.subscribe name])) session' =
          answers name b session := by
  intro r b
  have begins : ∀ earlier, .close ∉ earlier →
      ∃ log, Agrees r name log ((ofCapacity capacity).run (earlier ++ [.subscribe name])) {} := by
    intro earlier unclosed
    obtain ⟨log, holds⟩ := holds_run capacity earlier
    rw [run_concat]
    exact ⟨log, agrees_subscribe holds (isOpen_run rfl unclosed)⟩
  obtain ⟨log, agrees⟩ := begins before unclosed
  refine ⟨placesFor_least capacity, serves_of_agrees agrees (placesFor_pos capacity) stays, ?_⟩
  intro before' session' unclosed' stays' same
  obtain ⟨log', agrees'⟩ := begins before' unclosed'
  rw [agrees'.answers_eq stays', agrees.answers_eq stays, ← Mailbox.answers_filter, same,
    Mailbox.answers_filter]

theorem delivers_lagging :
    let session := (List.range 5).map (fun n => Call.publish (.refreshCompleted "prices" n)) ++
      [.receive "late", .receive "late", .receive "late"]
    let b := (ofCapacity 2).run [.subscribe "early", .subscribe "late"]
    .close ∉ [Call.subscribe "early"] ∧ Stays "late" session ∧
      (answers "late" b session).filterMap Received.event? =
        [.refreshCompleted "prices" 3, .refreshCompleted "prices" 4] ∧
      answers "late" b (.receive "early" :: session ++ [.unsubscribe "early"]) =
        answers "late" b session := by
  intro session b
  have unclosed : .close ∉ [Call.subscribe "early"] := by decide
  have stays : Stays "late" session := by decide
  have stays' : Stays "late" (.receive "early" :: session ++ [.unsubscribe "early"]) := by decide
  obtain ⟨-, served, alike⟩ := delivers 2 "late" [.subscribe "early"] session unclosed stays
  exact ⟨unclosed, stays, served.events.trans (by decide),
    alike [.subscribe "early"] _ unclosed stays' (by decide)⟩

end MarketFeed.EventBus
