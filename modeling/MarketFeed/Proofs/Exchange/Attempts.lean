import MarketFeed.Proofs.ChunkFetch.Cancellation
import Mathlib.Data.List.ModifyLast
/-!
The requests of one exchange, read off its history. An exchange that is not cancelled sends one block
of requests for its address: some that failed in a way that is worth another attempt, and one with
which the attempts ended.
-/

set_option autoImplicit false
set_option relaxedAutoImplicit false

namespace MarketFeed

open Program

namespace Exchange

/-- A request as it was sent: its address, what came of sending it, and what came of reading the body
of the answer if that was tried. -/
structure Request where
  url : String
  sent : Sent
  received : Option Received

def note (requests : List Request) : Exchanged network → List Request
  | ⟨.send url, sent⟩ => requests ++ [⟨url, sent, none⟩]
  | ⟨.receive, received⟩ => requests.modifyLast fun r => { r with received := some received }
  | ⟨.report _, _⟩ | ⟨.draw _, _⟩ | ⟨.pause _, _⟩ => requests

namespace Request

def Succeeded (r : Request) : Prop :=
  ∃ status body, isSuccess status = true ∧ r.sent = .answered status ∧
    r.received = some (.body body)

/-- There was no answer, or one after which the same request is worth another attempt. -/
def Retryable (r : Request) : Prop :=
  (∃ message timeout, r.sent = .failed message timeout) ∨
    ∃ status, r.sent = .answered status ∧ status ∈ [429, 500, 502, 503, 504]

theorem Retryable.not_succeeded {r : Request} (retryable : r.Retryable) : ¬ r.Succeeded := by
  rintro ⟨status, body, success, answered, -⟩
  rcases retryable with ⟨message, timeout, failed⟩ | ⟨status', answered', listed⟩
  · cases answered.symm.trans failed
  · cases answered.symm.trans answered'
    revert success
    simp only [List.mem_cons, List.not_mem_nil, or_false] at listed
    rcases listed with rfl | rfl | rfl | rfl | rfl <;> decide

end Request

/-- No wait of an exchange was ended by a cancellation. -/
def Undisturbed (h : List (Exchanged network)) : Prop := ∀ e ∈ h, waits e.op ≠ some e.answer

/-- The requests of one use of an address: some that failed in a way that is worth another attempt,
and then one with which the attempts ended. -/
def Block (attempts : Nat) (url : String) (requests : List Request) : Prop :=
  ∃ before last, requests = before ++ [last] ∧ requests.length ≤ attempts ∧
    (∀ r ∈ requests, r.url = url) ∧ (∀ r ∈ before, r.Retryable) ∧
    (requests.length < attempts → ¬ last.Retryable)

structure Attempted.Fits (url : String) (r : Request) (a : Attempted) : Prop where
  url : r.url = url
  again : (∃ e, a = .again e) ↔ r.Retryable
  succeeded : (∃ response, a = .succeeded response) ↔ r.Succeeded
  ended : ∀ e, a = .ended e → e.retryClass ≠ .never

variable {h : List (Exchanged network)}

theorem Undisturbed.head {e : Exchanged network} (calm : Undisturbed (e :: h)) :
    waits e.op ≠ some e.answer := calm e List.mem_cons_self

theorem Undisturbed.tail {e : Exchanged network} (calm : Undisturbed (e :: h)) : Undisturbed h :=
  fun e' member => calm e' (List.mem_cons_of_mem e member)

theorem Undisturbed.left {k : List (Exchanged network)} (calm : Undisturbed (h ++ k)) :
    Undisturbed h := fun e member => calm e (List.mem_append_left k member)

theorem Undisturbed.right {k : List (Exchanged network)} (calm : Undisturbed (h ++ k)) :
    Undisturbed k := fun e member => calm e (List.mem_append_right h member)

private theorem prepare_silent {config : RetryConfig} {label : String} {attempt : Nat}
    {signal : Signal} (runs : Runs (prepare config label attempt) h signal) (calm : Undisturbed h) :
    signal = .elapsed ∧ ∀ acc, h.foldl note acc = acc := by
  rw [prepare] at runs
  split at runs
  · obtain ⟨rfl, rfl⟩ := runs_pure runs
    exact ⟨rfl, fun _ => rfl⟩
  · obtain ⟨_, _, rfl, drawing⟩ := runs_call_bind (S := network) _ runs
    obtain ⟨drawn, _, rfl, pausing⟩ := runs_call_bind (S := network) _ drawing
    cases runs_call (S := network) pausing
    refine ⟨?_, fun _ => rfl⟩
    cases signal with
    | elapsed => rfl
    | cancelled => exact absurd rfl calm.tail.tail.head

theorem success_not_retryable {status : Nat} (success : isSuccess status = true) :
    status ∉ [429, 500, 502, 503, 504] := by
  intro listed
  simp only [List.mem_cons, List.not_mem_nil, or_false] at listed
  rcases listed with rfl | rfl | rfl | rfl | rfl <;> cases success

private theorem takeBody_notes {label : String} {attempt status : Nat} {ended : Attempted}
    (runs : Runs (takeBody label attempt status) h ended) (calm : Undisturbed h)
    (success : isSuccess status = true) (url : String) :
    ∃ received, (∀ acc sent, h.foldl note (acc ++ [⟨url, sent, none⟩]) =
        acc ++ [⟨url, sent, some received⟩]) ∧
      ended.Fits url ⟨url, .answered status, some received⟩ := by
  have good : ∀ received, ¬ (Request.mk url (.answered status) received).Retryable := by
    rintro received (⟨_, _, failed⟩ | ⟨_, answered, listed⟩)
    · cases failed
    · cases answered
      exact success_not_retryable success listed
  obtain ⟨received, _, rfl, reading⟩ := runs_call_bind (S := network) _ runs
  refine ⟨received, ?_⟩
  cases received with
  | cancelled => exact absurd rfl calm.head
  | body bytes =>
    obtain ⟨_, _, rfl, ending⟩ := runs_call_bind (S := network) _ reading
    obtain ⟨rfl, rfl⟩ := runs_pure ending
    refine ⟨fun _ _ => List.modifyLast_concat _ _ _, rfl, ?_, ?_, nofun⟩
    · exact ⟨nofun, fun retryable => absurd retryable (good _)⟩
    · exact ⟨fun _ => ⟨status, bytes, success, rfl, rfl⟩, fun _ => ⟨_, rfl⟩⟩
  | failed message =>
    obtain ⟨_, _, rfl, ending⟩ := runs_call_bind (S := network) _ reading
    obtain ⟨rfl, rfl⟩ := runs_pure ending
    refine ⟨fun _ _ => List.modifyLast_concat _ _ _, rfl, ?_, ?_, ?_⟩
    · exact ⟨nofun, fun retryable => absurd retryable (good _)⟩
    · exact ⟨nofun, fun ⟨_, _, _, _, read⟩ => nomatch read⟩
    · rintro _ ⟨⟩
      nofun

private theorem refuse_fits {status : Nat} (refused : ¬ isSuccess status = true) (url : String)
    (received : Received) (body : Bytes) :
    (refuse status body).Fits url ⟨url, .answered status, some received⟩ := by
  have unread : ¬ (Request.mk url (.answered status) (some received)).Succeeded := by
    rintro ⟨_, _, success, answered, -⟩
    cases answered
    exact refused success
  rw [refuse]
  by_cases listed : FetchError.isRetryableStatus status = true
  · rw [if_pos listed]
    have member : status ∈ [429, 500, 502, 503, 504] := List.contains_iff_mem.mp listed
    refine ⟨rfl, ⟨fun _ => .inr ⟨status, rfl, member⟩, fun _ => ⟨_, rfl⟩⟩, ?_, nofun⟩
    exact ⟨nofun, fun succeeded => absurd succeeded unread⟩
  · rw [if_neg listed]
    refine ⟨rfl, ⟨nofun, ?_⟩, ⟨nofun, fun succeeded => absurd succeeded unread⟩, ?_⟩
    · rintro (⟨_, _, failed⟩ | ⟨_, answered, member⟩)
      · cases failed
      · cases answered
        exact absurd (List.contains_iff_mem.mpr member) listed
    · rintro _ ⟨⟩
      rw [FetchError.retryClass, if_neg listed]
      nofun

private theorem takeRefusal_notes {label : String} {attempt status : Nat} {ended : Attempted}
    (runs : Runs (takeRefusal label attempt status) h ended) (calm : Undisturbed h)
    (refused : ¬ isSuccess status = true) (url : String) :
    ∃ received, (∀ acc sent, h.foldl note (acc ++ [⟨url, sent, none⟩]) =
        acc ++ [⟨url, sent, some received⟩]) ∧
      ended.Fits url ⟨url, .answered status, some received⟩ := by
  obtain ⟨_, _, rfl, receiving⟩ := runs_call_bind (S := network) _ runs
  obtain ⟨received, _, rfl, ending⟩ := runs_call_bind (S := network) _ receiving
  refine ⟨received, ?_⟩
  cases received with
  | cancelled => exact absurd rfl calm.tail.head
  | body bytes =>
    obtain ⟨rfl, rfl⟩ := runs_pure ending
    exact ⟨fun _ _ => List.modifyLast_concat _ _ _, refuse_fits refused url _ _⟩
  | failed message =>
    obtain ⟨rfl, rfl⟩ := runs_pure ending
    exact ⟨fun _ _ => List.modifyLast_concat _ _ _, refuse_fits refused url _ _⟩

private theorem attemptOnce_notes {label url : String} {attempt : Nat} {ended : Attempted}
    (runs : Runs (attemptOnce label url attempt) h ended) (calm : Undisturbed h) :
    ∃ r, (∀ acc, h.foldl note acc = acc ++ [r]) ∧ ended.Fits url r := by
  obtain ⟨sent, k, rfl, answering⟩ := runs_call_bind (S := network) _ runs
  cases sent with
  | cancelled => exact absurd rfl calm.head
  | failed message timeout =>
    obtain ⟨_, _, rfl, ending⟩ := runs_call_bind (S := network) _ answering
    obtain ⟨rfl, rfl⟩ := runs_pure ending
    refine ⟨⟨url, .failed message timeout, none⟩, fun _ => rfl, rfl, ?_, ⟨nofun, nofun⟩, nofun⟩
    exact ⟨fun _ => .inl ⟨message, timeout, rfl⟩, fun _ => ⟨_, rfl⟩⟩
  | answered status =>
    change Runs (if isSuccess status then takeBody label attempt status
      else takeRefusal label attempt status) k ended at answering
    split at answering
    · rename_i success
      obtain ⟨received, notes, fits⟩ := takeBody_notes answering calm.tail success url
      exact ⟨_, fun acc => notes acc (.answered status), fits⟩
    · rename_i refused
      obtain ⟨received, notes, fits⟩ := takeRefusal_notes answering calm.tail refused url
      exact ⟨_, fun acc => notes acc (.answered status), fits⟩

private theorem Block.single {url : String} {r : Request} {left : Nat} (here : r.url = url)
    (final : left = 0 ∨ ¬ r.Retryable) : Block (left + 1) url [r] := by
  refine ⟨[], r, rfl, Nat.le_add_left 1 left, ?_, nofun, fun short => ?_⟩
  · intro r' member
    rw [List.mem_singleton.mp member]
    exact here
  · rcases final with rfl | final
    · exact absurd short (Nat.lt_irrefl 1)
    · exact final

private theorem Block.cons {url : String} {r : Request} {left : Nat} {block : List Request}
    (here : r.url = url) (retryable : r.Retryable) (later : Block left url block) :
    Block (left + 1) url (r :: block) := by
  obtain ⟨before, last, rfl, bounded, addressed, failed, final⟩ := later
  refine ⟨r :: before, last, rfl, Nat.succ_le_succ bounded, ?_, ?_, fun short => ?_⟩
  · exact List.forall_mem_cons.mpr ⟨here, addressed⟩
  · exact List.forall_mem_cons.mpr ⟨retryable, failed⟩
  · exact final (Nat.lt_of_succ_lt_succ short)

private theorem attemptsFrom_first {config : RetryConfig} {label url : String} {left attempt : Nat}
    {last : Option FetchError} {result : Except FetchError Response}
    (runs : Runs (attemptsFrom config label url (left + 1) attempt last) h result)
    (calm : Undisturbed h) :
    ∃ r ended k l, h = k ++ l ∧ (∀ acc, k.foldl note acc = acc ++ [r]) ∧
      Attempted.Fits url r ended ∧
      Runs (match ended with
        | .succeeded response => pure (.ok response)
        | .ended e => pure (.error e)
        | .again e => attemptsFrom config label url left (attempt + 1) (some e)) l result := by
  obtain ⟨k, l, signal, rfl, preparing, rest⟩ := runs_bind runs
  obtain ⟨rfl, silent⟩ := prepare_silent preparing calm.left
  obtain ⟨k', l', ended, rfl, attempting, going⟩ := runs_bind rest
  obtain ⟨r, notes, fits⟩ := attemptOnce_notes attempting calm.right.left
  refine ⟨r, ended, k ++ k', l', (List.append_assoc _ _ _).symm, fun acc => ?_, fits, going⟩
  rw [List.foldl_append, silent, notes]

private theorem attemptsFrom_notes {config : RetryConfig} {label url : String} {left attempt : Nat}
    {last : Option FetchError} {result : Except FetchError Response}
    (runs : Runs (attemptsFrom config label url left attempt last) h result)
    (calm : Undisturbed h) :
    ∃ block, (∀ acc, h.foldl note acc = acc ++ block) ∧ (left = 0 → block = []) ∧
      (0 < left → Block left url block) ∧
      ((∃ response, result = .ok response) ↔ ∃ r ∈ block, r.Succeeded) ∧
      ∀ e, result = .error e → e.retryClass ≠ .never := by
  induction left generalizing h attempt last with
  | zero =>
    obtain ⟨rfl, rfl⟩ := runs_pure runs
    refine ⟨[], fun acc => (List.append_nil acc).symm, fun _ => rfl, nofun, ⟨nofun, nofun⟩, ?_⟩
    rintro _ ⟨⟩
    nofun
  | succ left ih =>
    obtain ⟨r, ended, k, l, rfl, notes, fits, going⟩ := attemptsFrom_first runs calm
    have alone : r.Succeeded ↔ ∃ r' ∈ [r], r'.Succeeded := by
      simp only [List.mem_singleton, exists_eq_left]
    cases ended with
    | succeeded response =>
      obtain ⟨rfl, rfl⟩ := runs_pure going
      have final : ¬ r.Retryable := fun retryable => nomatch fits.again.mpr retryable
      refine ⟨[r], fun acc => ?_, nofun, fun _ => .single fits.url (.inr final), ?_, nofun⟩
      · rw [List.append_nil, notes]
      · rw [← alone, ← fits.succeeded]
        exact ⟨fun _ => ⟨response, rfl⟩, fun _ => ⟨response, rfl⟩⟩
    | ended e =>
      obtain ⟨rfl, rfl⟩ := runs_pure going
      have final : ¬ r.Retryable := fun retryable => nomatch fits.again.mpr retryable
      refine ⟨[r], fun acc => ?_, nofun, fun _ => .single fits.url (.inr final), ?_, ?_⟩
      · rw [List.append_nil, notes]
      · rw [← alone, ← fits.succeeded]
        exact ⟨nofun, nofun⟩
      · rintro _ ⟨⟩
        exact fits.ended e rfl
    | again e =>
      -- without attempts left the block ends here, so that it may end with a failure worth another
      have retryable : r.Retryable := fits.again.mp ⟨e, rfl⟩
      obtain ⟨block, later, none, some, ok, error⟩ := ih going calm.right
      refine ⟨r :: block, fun acc => ?_, nofun, fun _ => ?_, ?_, error⟩
      · rw [List.foldl_append, notes, later, List.append_assoc]
        rfl
      · rcases Nat.eq_zero_or_pos left with zero | positive
        · rw [none zero]
          exact .single fits.url (.inl zero)
        · exact (some positive).cons fits.url retryable
      · rw [ok]
        simp only [List.mem_cons, exists_eq_or_imp, retryable.not_succeeded, false_or]

/-- An exchange sends a block of requests, one of which succeeds exactly if there is a response; no
failure of an exchange is one for good. -/
theorem perform_notes {config : RetryConfig} {label url : String}
    {result : Except FetchError Response} (runs : Runs (perform config label url) h result)
    (calm : Undisturbed h) :
    ∃ block, (∀ acc, h.foldl note acc = acc ++ block) ∧ Block config.attempts url block ∧
      ((∃ response, result = .ok response) ↔ ∃ r ∈ block, r.Succeeded) ∧
      ∀ e, result = .error e → e.retryClass ≠ .never := by
  obtain ⟨block, notes, -, whole, ok, error⟩ := attemptsFrom_notes runs calm
  exact ⟨block, notes, whole (Nat.lt_of_lt_of_le Nat.one_pos (Nat.le_max_right _ 1)), ok, error⟩

end Exchange

end MarketFeed
