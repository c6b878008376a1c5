import Mathlib.Data.List.Basic
import Mathlib.Data.List.Induction
import Mathlib.Data.List.TakeWhile
import MarketFeed.EventBus
/-!
What a subscriber is due. A mailbox keeps every announcement made since its subscriber came, and which
of them the subscriber was handed; the subscriber is handed the oldest one that it has not passed among
the latest ones. So it is handed them in order, and one that it misses was buried under newer ones.
-/

set_option autoImplicit false
set_option relaxedAutoImplicit false

namespace MarketFeed.EventBus

/-- What is done with a bus. Waiting for an announcement is a receipt each time the bus is looked at. -/
inductive Call where
  | publish (event : RefreshEvent)
  | subscribe (name : String)
  | unsubscribe (name : String)
  | receive (name : String)
  | close
  deriving DecidableEq

namespace Call

/-- Whether a call reaches a subscriber: it comes from this subscriber, or it concerns everyone. -/
def reaches (name : String) : Call → Bool
  | .receive other => other == name
  | .subscribe _ | .unsubscribe _ => false
  | .publish _ | .close => true

def event? : Call → Option RefreshEvent
  | .publish event => some event
  | _ => none

end Call

def Received.event? : Received → Option RefreshEvent
  | .event announced => some announced
  | _ => none

/-- The announcements since a subscriber came, the oldest first, the positions of those that it was
handed, in turn, and whether there can be more. -/
structure Mailbox where
  sent : List RefreshEvent := []
  taken : List Nat := []
  isOpen : Bool := true

namespace Mailbox

/-- From where on the subscriber has not passed anything: behind the last position it was handed. -/
def passed (m : Mailbox) : Nat := (m.taken.getLast?.map (· + 1)).getD 0

/-- The oldest announcement not passed among the latest `r`. -/
def next? (r : Nat) (m : Mailbox) : Option Nat :=
  (List.range m.sent.length).find? fun i => m.passed ≤ i && m.sent.length ≤ i + r

def answer (r : Nat) (m : Mailbox) : Received :=
  match (m.next? r).bind fun i => m.sent[i]? with
  | some event => .event event
  | none => if m.isOpen then .nothingYet else .closed

def step (r : Nat) (name : String) (m : Mailbox) : Call → Mailbox
  | .publish event => if m.isOpen then { m with sent := m.sent ++ [event] } else m
  | .receive other => if other = name then { m with taken := m.taken ++ (m.next? r).toList } else m
  | .close => { m with isOpen := false }
  | .subscribe _ | .unsubscribe _ => m

def after (r : Nat) (name : String) (calls : List Call) : Mailbox := calls.foldl (step r name) {}

def answers (r : Nat) (name : String) : Mailbox → List Call → List Received
  | _, [] => []
  | m, call :: rest =>
    if call = .receive name then m.answer r :: answers r name (m.step r name call) rest
    else answers r name (m.step r name call) rest

variable {r : Nat} {name : String} {m : Mailbox} {calls : List Call}

theorem after_concat (calls : List Call) (call : Call) :
    after r name (calls ++ [call]) = (after r name calls).step r name call := by
  rw [after, List.foldl_append]
  rfl

theorem passed_concat (sent : List RefreshEvent) (taken : List Nat) (i : Nat) (isOpen : Bool) :
    passed ⟨sent, taken ++ [i], isOpen⟩ = i + 1 := by
  simp [passed]

theorem next?_eq_some_iff {i : Nat} :
    m.next? r = some i ↔ i = max m.passed (m.sent.length - r) ∧ i < m.sent.length := by
  rw [next?, List.find?_range_eq_some]
  simp only [Bool.and_eq_true, decide_eq_true_eq, List.mem_range, Bool.not_eq_true', Bool.and_eq_false_iff,
    decide_eq_false_iff_not]
  constructor
  · rintro ⟨⟨ahead, latest⟩, within, first⟩
    refine ⟨?_, within⟩
    by_contra other
    have earlier := first (i - 1) (by omega)
    omega
  · rintro ⟨rfl, within⟩
    refine ⟨by omega, within, ?_⟩
    intro j earlier
    omega

theorem next?_eq_none_iff (within : m.passed ≤ m.sent.length) (positive : 0 < r) :
    m.next? r = none ↔ m.passed = m.sent.length := by
  constructor
  · intro nothing
    by_contra left
    have found := (next?_eq_some_iff (m := m) (r := r)).mpr ⟨rfl, by omega⟩
    rw [nothing] at found
    cases found
  · intro read
    cases found : m.next? r with
    | none => rfl
    | some i =>
      have place := next?_eq_some_iff.mp found
      omega

/-! ### Single steps -/

structure InOrder (m : Mailbox) : Prop where
  rising : m.taken.Pairwise (· < ·)
  made : ∀ i ∈ m.taken, i < m.sent.length
  below : ∀ i ∈ m.taken, i < m.passed

theorem InOrder.passed_le (order : InOrder m) : m.passed ≤ m.sent.length := by
  rw [passed]
  cases last : m.taken.getLast? with
  | none => exact Nat.zero_le _
  | some i => exact order.made i (List.mem_of_getLast? last)

theorem step_cases (r : Nat) (name : String) (m : Mailbox) (call : Call) :
    (∃ event, call = .publish event ∧ m.isOpen = true ∧
      m.step r name call = { m with sent := m.sent ++ [event] }) ∨
    (∃ i, call = .receive name ∧ m.next? r = some i ∧
      m.step r name call = { m with taken := m.taken ++ [i] }) ∨
    (call = .close ∧ m.step r name call = { m with isOpen := false }) ∨
    (call ≠ .close ∧ (m.isOpen = true → call.event? = none) ∧
      (call = .receive name → m.next? r = none) ∧ m.step r name call = m) := by
  cases call with
  | publish event =>
    rw [step]
    by_cases opened : m.isOpen = true
    · exact .inl ⟨event, rfl, opened, if_pos opened⟩
    · exact .inr <| .inr <| .inr ⟨nofun, fun opens => absurd opens opened, nofun, if_neg opened⟩
  | receive other =>
    rw [step]
    by_cases own : other = name
    · subst own
      rw [if_pos rfl]
      cases found : m.next? r with
      | none =>
        refine .inr <| .inr <| .inr ⟨nofun, fun _ => rfl, fun _ => rfl, ?_⟩
        rw [Option.toList_none, List.append_nil]
      | some i => exact .inr <| .inl ⟨i, rfl, rfl, rfl⟩
    · exact .inr <| .inr <| .inr
        ⟨nofun, fun _ => rfl, fun same => absurd (Call.receive.inj same) own, if_neg own⟩
  | close => exact .inr <| .inr <| .inl ⟨rfl, rfl⟩
  | subscribe other => exact .inr <| .inr <| .inr ⟨nofun, fun _ => rfl, nofun, rfl⟩
  | unsubscribe other => exact .inr <| .inr <| .inr ⟨nofun, fun _ => rfl, nofun, rfl⟩

theorem inOrder_step (order : InOrder m) (call : Call) : InOrder (m.step r name call) := by
  rcases step_cases r name m call with
    ⟨event, -, -, moved⟩ | ⟨i, -, found, moved⟩ | ⟨-, moved⟩ | ⟨-, -, -, moved⟩ <;> rw [moved]
  · refine ⟨order.rising, ?_, order.below⟩
    intro j member
    have before := order.made j member
    rw [List.length_append]
    omega
  · have place := next?_eq_some_iff.mp found
    have newer : ∀ j ∈ m.taken, j < i := by
      intro j member
      have before := order.below j member
      omega
    refine ⟨?_, ?_, ?_⟩
    · simpa [List.pairwise_append] using ⟨order.rising, newer⟩
    · intro j member
      rcases List.mem_append.mp member with old | new
      · exact order.made j old
      · rw [List.mem_singleton.mp new]
        exact place.2
    · intro j member
      rw [passed_concat]
      rcases List.mem_append.mp member with old | new
      · have before := newer j old
        omega
      · rw [List.mem_singleton.mp new]
        omega
  · exact ⟨order.rising, order.made, order.below⟩
  · exact order

theorem taken_step (r : Nat) (name : String) (m : Mailbox) (call : Call) :
    (m.step r name call).taken = m.taken ∨
      ∃ i, m.next? r = some i ∧ (m.step r name call).taken = m.taken ++ [i] := by
  rcases step_cases r name m call with
    ⟨event, -, -, moved⟩ | ⟨i, -, found, moved⟩ | ⟨-, moved⟩ | ⟨-, -, -, moved⟩ <;> rw [moved]
  · exact .inl rfl
  · exact .inr ⟨i, found, rfl⟩
  · exact .inl rfl
  · exact .inl rfl

theorem passed_of_taken {m' : Mailbox} (same : m'.taken = m.taken) : m'.passed = m.passed := by
  rw [passed, passed, same]

theorem passed_of_taken_concat {m' : Mailbox} {i : Nat} (more : m'.taken = m.taken ++ [i]) :
    m'.passed = i + 1 := by
  simp [passed, more]

/-! ### Whole sessions -/

theorem inOrder_after (calls : List Call) : InOrder (after r name calls) := by
  induction calls using List.reverseRecOn with
  | nil => exact ⟨List.Pairwise.nil, nofun, nofun⟩
  | append_singleton calls call ih =>
    rw [after_concat]
    exact inOrder_step ih call

theorem isOpen_after (calls : List Call) : (after r name calls).isOpen = !calls.contains .close := by
  induction calls using List.reverseRecOn with
  | nil => rfl
  | append_singleton calls call ih =>
    rw [after_concat, List.contains_append]
    rcases step_cases r name (after r name calls) call with
      ⟨event, rfl, -, moved⟩ | ⟨i, rfl, -, moved⟩ | ⟨rfl, moved⟩ | ⟨other, -, -, moved⟩ <;> rw [moved]
    · simp [ih]
    · simp [ih]
    · simp
    · simp [ih, other.symm]

private theorem takeWhile_open {calls : List Call} (opened : Call.close ∉ calls) :
    calls.takeWhile (· ≠ .close) = calls := by
  rw [List.takeWhile_eq_self_iff]
  intro call member
  rw [decide_eq_true_eq]
  rintro rfl
  exact opened member

private theorem takeWhile_concat_closed {calls : List Call} (closed : Call.close ∈ calls) (call : Call) :
    (calls ++ [call]).takeWhile (· ≠ .close) = calls.takeWhile (· ≠ .close) := by
  have ends : ¬ (calls.takeWhile (· ≠ .close)).length = calls.length := by
    intro whole
    have all := (List.takeWhile_prefix (· ≠ Call.close)).eq_of_length whole
    have kept := List.takeWhile_eq_self_iff.mp all Call.close closed
    simp at kept
  rw [List.takeWhile_append, if_neg ends]

theorem sent_after (calls : List Call) :
    (after r name calls).sent = (calls.takeWhile (· ≠ .close)).filterMap Call.event? := by
  induction calls using List.reverseRecOn with
  | nil => rfl
  | append_singleton calls call ih =>
    have state : (after r name calls).isOpen = !calls.contains .close := isOpen_after calls
    have happens := step_cases r name (after r name calls) call
    rw [after_concat]
    by_cases closed : Call.close ∈ calls
    · have shut : (after r name calls).isOpen = false := by simp [state, closed]
      rw [takeWhile_concat_closed closed, ← ih]
      rcases happens with
        ⟨event, -, opened, -⟩ | ⟨i, -, -, moved⟩ | ⟨-, moved⟩ | ⟨-, -, -, moved⟩
      · exact absurd (opened.symm.trans shut) nofun
      all_goals rw [moved]
    · have goes_on : (after r name calls).isOpen = true := by simp [state, closed]
      have whole := takeWhile_open closed
      rw [List.takeWhile_append, whole, if_pos rfl, List.filterMap_append]
      rw [whole] at ih
      rw [← ih]
      rcases happens with
        ⟨event, rfl, -, moved⟩ | ⟨i, rfl, -, moved⟩ | ⟨rfl, moved⟩ | ⟨other, silent, -, moved⟩ <;>
        rw [moved]
      · simp [Call.event?]
      · simp [Call.event?]
      · simp
      · simp [other, silent goes_on]

/-- An announcement that is missed had as many newer ones as the ring has places before the subscriber
passed it. -/
theorem buried {i : Nat} (behind : i < (after r name calls).passed)
    (missed : i ∉ (after r name calls).taken) :
    ∃ early late, calls = early ++ late ∧
      (after r name early).passed ≤ i ∧ i + r < (after r name early).sent.length := by
  induction calls using List.reverseRecOn with
  | nil => exact absurd behind (Nat.not_lt_zero i)
  | append_singleton calls call ih =>
    by_cases earlier : i < (after r name calls).passed ∧ i ∉ (after r name calls).taken
    · obtain ⟨early, late, parts, facts⟩ := ih earlier.1 earlier.2
      refine ⟨early, late ++ [call], ?_, facts⟩
      rw [parts, List.append_assoc]
    · rw [after_concat] at behind missed
      rcases taken_step r name (after r name calls) call with same | ⟨j, found, more⟩
      · rw [passed_of_taken same] at behind
        rw [same] at missed
        exact absurd ⟨behind, missed⟩ earlier
      · rw [passed_of_taken_concat more] at behind
        rw [more, List.mem_append, List.mem_singleton, not_or] at missed
        have place := next?_eq_some_iff.mp found
        have reached : (after r name calls).passed ≤ i := by
          by_contra passed
          exact earlier ⟨by omega, missed.1⟩
        exact ⟨calls, [call], rfl, reached, by omega⟩

theorem taken_of_close_behind
    (near : ∀ early late, calls = early ++ late →
      (after r name early).sent.length ≤ (after r name early).passed + r) :
    (after r name calls).taken = List.range (after r name calls).passed := by
  induction calls using List.reverseRecOn with
  | nil => rfl
  | append_singleton calls call ih =>
    have before := ih fun early late parts =>
      near early (late ++ [call]) (by rw [parts, List.append_assoc])
    rw [after_concat]
    rcases taken_step r name (after r name calls) call with same | ⟨j, found, more⟩
    · rw [passed_of_taken same, same]
      exact before
    · have place := next?_eq_some_iff.mp found
      have behind := near calls [call] rfl
      have next : j = (after r name calls).passed := by omega
      rw [passed_of_taken_concat more, more, before, next, List.range_succ]

theorem next?_of_answer (nothing : ∀ event, m.answer r ≠ .event event) : m.next? r = none := by
  cases found : m.next? r with
  | none => rfl
  | some i =>
    have within := (next?_eq_some_iff.mp found).2
    refine absurd ?_ (nothing m.sent[i])
    rw [answer, found, Option.bind_some, List.getElem?_eq_getElem within]

theorem event?_answer (m : Mailbox) :
    (m.answer r).event?.toList = (m.next? r).toList.filterMap fun i => m.sent[i]? := by
  rw [answer]
  cases found : m.next? r with
  | none =>
    rw [Option.bind_none, Option.toList_none, List.filterMap_nil]
    split
    next event impossible => cases impossible
    next => split <;> rfl
  | some i =>
    have within := (next?_eq_some_iff.mp found).2
    rw [Option.bind_some, List.getElem?_eq_getElem within, Option.toList_some]
    simp [Received.event?, within]

theorem answers_concat (m : Mailbox) (calls : List Call) (call : Call) :
    answers r name m (calls ++ [call]) = answers r name m calls ++
      if call = .receive name then [(calls.foldl (step r name) m).answer r] else [] := by
  induction calls generalizing m with
  | nil =>
    rw [List.nil_append, answers, answers, answers, List.foldl_nil]
    split <;> rfl
  | cons first rest ih =>
    rw [List.cons_append, answers, answers, ih, List.foldl_cons]
    split <;> rfl

theorem events_after (calls : List Call) :
    (answers r name {} calls).filterMap Received.event? =
      (after r name calls).taken.filterMap fun i => (after r name calls).sent[i]? := by
  induction calls using List.reverseRecOn with
  | nil => rfl
  | append_singleton calls call ih =>
    have order : InOrder (after r name calls) := inOrder_after calls
    rw [answers_concat, List.filterMap_append, ih, after_concat, ← after]
    generalize after r name calls = m at order
    have handed : [m.answer r].filterMap Received.event? =
        (m.next? r).toList.filterMap fun i => m.sent[i]? := by
      rw [← event?_answer]
      cases answered : (m.answer r).event? <;> simp [answered]
    rcases step_cases r name m call with
      ⟨event, rfl, -, moved⟩ | ⟨i, rfl, found, moved⟩ | ⟨rfl, moved⟩ | ⟨-, -, idle, moved⟩ <;> rw [moved]
    · rw [if_neg nofun, List.filterMap_nil, List.append_nil]
      apply List.filterMap_congr
      intro i member
      exact (List.getElem?_append_left (order.made i member)).symm
    · rw [if_pos rfl, handed, found, List.filterMap_append, Option.toList_some]
    · rw [if_neg nofun, List.filterMap_nil, List.append_nil]
    · split
      next own => rw [handed, idle own, Option.toList_none, List.filterMap_nil, List.append_nil]
      next => rw [List.filterMap_nil, List.append_nil]

theorem answers_filter (m : Mailbox) (calls : List Call) :
    answers r name m (calls.filter (Call.reaches name)) = answers r name m calls := by
  induction calls generalizing m with
  | nil => rfl
  | cons call rest ih =>
    by_cases reached : call.reaches name = true
    · rw [List.filter_cons_of_pos reached, answers, answers, ih]
    · have own : call ≠ .receive name := by
        rintro rfl
        simp [Call.reaches] at reached
      have idle : m.step r name call = m := by
        cases call with
        | publish event => exact absurd rfl reached
        | receive other =>
          have different : other ≠ name := by simpa [Call.reaches] using reached
          exact if_neg different
        | close => exact absurd rfl reached
        | subscribe other => rfl
        | unsubscribe other => rfl
      rw [List.filter_cons_of_neg reached, ih, answers, if_neg own, idle]

end Mailbox

end MarketFeed.EventBus
