import MarketFeed.Proofs.ChunkFetch.Cancellation
import MarketFeed.Proofs.Exchange.Outcomes
/-!
Exchanges by a script that tells what each attempt meets. The script alone decides how many requests are
sent, what is reported of them, and the result: the first reply that is not worth another attempt counts,
and if there is none within the attempts the last failure is told. Wherever the exchange is cancelled, it
has reported a beginning of this, and ends at once.
-/

set_option autoImplicit false
set_option relaxedAutoImplicit false

namespace MarketFeed.Exchange

open Program

/-! ### Replies -/

/-- What an attempt meets: no answer, or an answer with a status and a body that can be read or not. -/
inductive Reply where
  | unanswered (message : String) (timeout : Bool)
  | answered (status : Nat) (body : Except String Bytes)

namespace Reply

def sent : Reply → Sent
  | .unanswered message timeout => .failed message timeout
  | .answered status _ => .answered status

def received : Reply → Received
  | .unanswered message _ => .failed message
  | .answered _ (.ok bytes) => .body bytes
  | .answered _ (.error message) => .failed message

def status? : Reply → Option Nat
  | .unanswered _ _ => none
  | .answered status _ => some status

/-- The first 256 characters of a body as text, and dots if there are more. -/
def excerpt (bytes : Bytes) : String :=
  let text := Text.Utf8.decodeLenient bytes
  if text.length ≤ 256 then String.ofList text else String.ofList (text.take 256 ++ ['.', '.', '.'])

def read : Reply → Except FetchError Bytes
  | .unanswered message timeout => .error (.transport message timeout)
  | .answered status (.ok bytes) =>
    if 200 ≤ status ∧ status ≤ 299 then .ok bytes else .error (.status status (excerpt bytes))
  | .answered status (.error message) =>
    if 200 ≤ status ∧ status ≤ 299 then .error (.bodyRead message)
    else .error (.status status (excerpt []))

/-- The reply is a failure after which the same request is worth another attempt. -/
def IsRetryable (r : Reply) : Prop := ∃ e, r.read = .error e ∧ e.retryClass = .retry

def outcome (r : Reply) : Outcome :=
  if r.status? = some 429 then .rateLimited
  else match r.read with
    | .ok _ => .success
    | .error _ => .error

def report (label : String) (attempt : Nat) (r : Reply) : Event :=
  ⟨label, r.outcome, attempt, r.status?⟩

end Reply

def announcement (label : String) (attempt : Nat) : List Event :=
  if attempt = 0 then [] else [⟨label, .retry, attempt, none⟩]

/-- What is reported of some attempts from number `first` on: each outcome, and before it the announcement
of an attempt that is not the first. -/
def ledger (label : String) (script : Nat → Reply) (first made : Nat) : List Event :=
  (List.range' first made).flatMap fun k => announcement label k ++ [(script k).report label k]

/-- How an exchange by a script ends after a number of attempts: the first reply that is not worth another
attempt is the result, and if all of them are, the last failure is told. -/
inductive Concludes (script : Nat → Reply) (attempts : Nat) :
    Nat → Except FetchError Response → Prop where
  | decided {j : Nat} (within : j < attempts) (early : ∀ i < j, (script i).IsRetryable)
      (final : ¬ (script j).IsRetryable) :
      Concludes script attempts (j + 1) ((script j).read.map fun body => ⟨body, j + 1⟩)
  | exhausted {last : FetchError} (all : ∀ i < attempts, (script i).IsRetryable)
      (told : (script (attempts - 1)).read = .error last) :
      Concludes script attempts attempts (.error (.retriesExhausted attempts last))

/-- A script decides how an exchange ends. -/
theorem Concludes.unique {script : Nat → Reply} {attempts made made' : Nat}
    {outcome outcome' : Except FetchError Response} (first : Concludes script attempts made outcome)
    (second : Concludes script attempts made' outcome') : made = made' ∧ outcome = outcome' := by
  cases first with
  | @decided j within early final =>
    cases second with
    | @decided j' within' early' final' =>
      have same : j = j' := by
        rcases Nat.lt_trichotomy j j' with earlier | same | later
        · exact absurd (early' j earlier) final
        · exact same
        · exact absurd (early j' later) final'
      subst same
      exact ⟨rfl, rfl⟩
    | exhausted all _ => exact absurd (all j within) final
  | exhausted all told =>
    cases second with
    | decided within' _ final' => exact absurd (all _ within') final'
    | exhausted _ told' =>
      cases Except.error.inj (told.symm.trans told')
      exact ⟨rfl, rfl⟩

/-! ### Histories -/

def event? : Exchanged network → Option Event
  | ⟨.report event, _⟩ => some event
  | _ => none

def reports (h : List (Exchanged network)) : List Event := h.filterMap event?

/-- Asked and answered by a script while nobody cancels: the next request is number `k`, it meets the reply
of its number, and the body that is read is that of the request before it. -/
def Scripted (script : Nat → Reply) : Nat → List (Exchanged network) → Prop
  | _, [] => True
  | k, ⟨.send _, sent⟩ :: h => sent = (script k).sent ∧ Scripted script (k + 1) h
  | k, ⟨.receive, received⟩ :: h => received = (script (k - 1)).received ∧ Scripted script k h
  | k, ⟨.pause _, signal⟩ :: h => signal = Signal.elapsed ∧ Scripted script k h
  | k, ⟨.report _, _⟩ :: h | k, ⟨.draw _, _⟩ :: h => Scripted script k h

variable {script : Nat → Reply} {k : Nat} {h l : List (Exchanged network)} {label url : String}

theorem addresses_append (h l : List (Exchanged network)) :
    addresses (h ++ l) = addresses h ++ addresses l := List.filterMap_append

theorem reports_append (h l : List (Exchanged network)) : reports (h ++ l) = reports h ++ reports l :=
  List.filterMap_append

theorem scripted_append :
    Scripted script k (h ++ l) ↔
      Scripted script k h ∧ Scripted script (k + (addresses h).length) l := by
  induction h generalizing k with
  | nil => exact (true_and _).symm ▸ Iff.rfl
  | cons e h ih =>
    obtain ⟨op, answer⟩ := e
    cases op with
    | send url =>
      have more : k + (addresses (⟨.send url, answer⟩ :: h)).length = k + 1 + (addresses h).length := by
        simp [addresses, address?]
        omega
      rw [List.cons_append, Scripted, Scripted, ih, more, and_assoc]
    | receive => rw [List.cons_append, Scripted, Scripted, ih, and_assoc]; rfl
    | pause d => rw [List.cons_append, Scripted, Scripted, ih, and_assoc]; rfl
    | report event => rw [List.cons_append, Scripted, Scripted, ih]; rfl
    | draw bound => rw [List.cons_append, Scripted, Scripted, ih]; rfl

theorem exists_scripted {α : Type} (script : Nat → Reply) (k : Nat) (p : Program network α) :
    ∃ h a, Runs p h a ∧ Scripted script k h := by
  induction p generalizing k with
  | done a => exact ⟨[], a, .done a, trivial⟩
  | ask op next ih =>
    cases op with
    | send url =>
      obtain ⟨h, a, runs, scripted⟩ := ih (script k).sent (k + 1)
      exact ⟨_, a, .ask runs, rfl, scripted⟩
    | receive =>
      obtain ⟨h, a, runs, scripted⟩ := ih (script (k - 1)).received k
      exact ⟨_, a, .ask runs, rfl, scripted⟩
    | pause d =>
      obtain ⟨h, a, runs, scripted⟩ := ih Signal.elapsed k
      exact ⟨_, a, .ask runs, rfl, scripted⟩
    | report event =>
      obtain ⟨h, a, runs, scripted⟩ := ih () k
      exact ⟨_, a, .ask runs, scripted⟩
    | draw bound =>
      obtain ⟨h, a, runs, scripted⟩ := ih (0 : Nat) k
      exact ⟨_, a, .ask runs, scripted⟩

/-! ### Attempts -/

def Reply.ended (attempt : Nat) (r : Reply) : Attempted :=
  match r.read with
  | .ok body => .succeeded ⟨body, attempt + 1⟩
  | .error e => if e.retryClass = .retry then .again e else .ended e

private theorem prepare_scripted {config : RetryConfig} {attempt : Nat} {signal : Signal}
    (runs : Runs (prepare config label attempt) h signal) (scripted : Scripted script k h) :
    signal = .elapsed ∧ addresses h = [] ∧ reports h = announcement label attempt := by
  rw [prepare] at runs
  rw [announcement]
  split at runs
  next first =>
    obtain ⟨rfl, rfl⟩ := runs_pure runs
    exact ⟨rfl, rfl, (if_pos first).symm⟩
  next later =>
    obtain ⟨_, _, rfl, drawing⟩ := runs_call_bind (S := network) _ runs
    obtain ⟨drawn, _, rfl, pausing⟩ := runs_call_bind (S := network) _ drawing
    cases runs_call (S := network) pausing
    exact ⟨scripted.1, rfl, (if_neg later).symm⟩

structure Met (label : String) (r : Reply) (attempt : Nat) (h : List (Exchanged network))
    (ended : Attempted) : Prop where
  sends : addresses h = []
  tells : reports h = [r.report label attempt]
  ends : ended = r.ended attempt

private theorem isSuccess_iff (status : Nat) :
    isSuccess status = true ↔ 200 ≤ status ∧ status ≤ 299 := by
  rw [isSuccess, Bool.and_eq_true, decide_eq_true_eq, decide_eq_true_eq]

private theorem errorText_eq (bytes : Bytes) : errorText bytes = Reply.excerpt bytes := by
  rw [errorText, shorten, Reply.excerpt, maxErrorBody]
  split
  next long => rw [if_neg (Nat.not_le_of_lt long), String.ofList_append]
  next short => rw [if_pos (Nat.le_of_not_lt short)]

private theorem retryClass_status (status : Nat) (body : String) :
    (FetchError.status status body).retryClass = .retry ↔ FetchError.isRetryableStatus status = true := by
  rw [FetchError.retryClass]
  split
  next listed => exact iff_of_true rfl listed
  next other => exact iff_of_false (by decide) other

private theorem ended_refusal {r : Reply} {status : Nat} {body : Bytes} (attempt : Nat)
    (read : r.read = .error (.status status (Reply.excerpt body))) :
    refuse status body = r.ended attempt := by
  simp only [refuse, errorText_eq, Reply.ended, read, retryClass_status]

private theorem takeBody_scripted {attempt status : Nat} {body : Except String Bytes} {ended : Attempted}
    (success : isSuccess status = true) (met : script (k - 1) = .answered status body)
    (runs : Runs (takeBody label attempt status) h ended) (scripted : Scripted script k h) :
    Met label (.answered status body) attempt h ended := by
  have other : some status ≠ some 429 := by
    rintro ⟨⟩
    cases success
  obtain ⟨received, _, rfl, reading⟩ := runs_call_bind (S := network) _ runs
  obtain ⟨rfl, -⟩ := scripted
  rw [met] at reading
  cases body with
  | ok bytes =>
    obtain ⟨_, _, rfl, ending⟩ := runs_call_bind (S := network) _ reading
    obtain ⟨rfl, rfl⟩ := runs_pure ending
    have read : (Reply.answered status (.ok bytes)).read = .ok bytes :=
      if_pos ((isSuccess_iff status).mp success)
    have outcome : (Reply.answered status (.ok bytes)).outcome = .success := by
      rw [Reply.outcome, read]
      exact if_neg other
    refine ⟨rfl, ?_, ?_⟩
    · rw [Reply.report, outcome]
      rfl
    · rw [Reply.ended, read]
  | error message =>
    obtain ⟨_, _, rfl, ending⟩ := runs_call_bind (S := network) _ reading
    obtain ⟨rfl, rfl⟩ := runs_pure ending
    have read : (Reply.answered status (.error message)).read = .error (.bodyRead message) :=
      if_pos ((isSuccess_iff status).mp success)
    have outcome : (Reply.answered status (.error message)).outcome = .error := by
      rw [Reply.outcome, read]
      exact if_neg other
    refine ⟨rfl, ?_, ?_⟩
    · rw [Reply.report, outcome]
      rfl
    · rw [Reply.ended, read]
      rfl

private theorem takeRefusal_scripted {attempt status : Nat} {body : Except String Bytes}
    {ended : Attempted} (refused : ¬ isSuccess status = true)
    (met : script (k - 1) = .answered status body)
    (runs : Runs (takeRefusal label attempt status) h ended) (scripted : Scripted script k h) :
    Met label (.answered status body) attempt h ended := by
  obtain ⟨_, _, rfl, receiving⟩ := runs_call_bind (S := network) _ runs
  obtain ⟨received, _, rfl, ending⟩ := runs_call_bind (S := network) _ receiving
  obtain ⟨rfl, -⟩ := scripted
  rw [met] at ending
  have reported {e : FetchError} (read : (Reply.answered status body).read = .error e) :
      (if status = tooManyRequests then Outcome.rateLimited else Outcome.error) =
        (Reply.answered status body).outcome := by
    rw [Reply.outcome, read]
    exact if_congr Option.some_inj.symm rfl rfl
  cases body with
  | ok bytes =>
    obtain ⟨rfl, rfl⟩ := runs_pure ending
    have read : (Reply.answered status (.ok bytes)).read = .error (.status status (Reply.excerpt bytes)) :=
      if_neg (mt (isSuccess_iff status).mpr refused)
    refine ⟨rfl, ?_, ended_refusal attempt read⟩
    rw [reported read]
    rfl
  | error message =>
    obtain ⟨rfl, rfl⟩ := runs_pure ending
    have read : (Reply.answered status (.error message)).read = .error (.status status (Reply.excerpt [])) :=
      if_neg (mt (isSuccess_iff status).mpr refused)
    refine ⟨rfl, ?_, ended_refusal attempt read⟩
    rw [reported read]
    rfl

private theorem attemptOnce_scripted {attempt : Nat} {ended : Attempted}
    (runs : Runs (attemptOnce label url attempt) h ended) (scripted : Scripted script k h) :
    addresses h = [url] ∧ reports h = [(script k).report label attempt] ∧
      ended = (script k).ended attempt := by
  obtain ⟨sent, l, rfl, answering⟩ := runs_call_bind (S := network) _ runs
  obtain ⟨rfl, scripted⟩ := scripted
  have met : Met label (script k) attempt l ended := by
    cases reply : script k with
    | unanswered message timeout =>
      rw [reply] at answering
      obtain ⟨_, _, rfl, ending⟩ := runs_call_bind (S := network) _ answering
      obtain ⟨rfl, rfl⟩ := runs_pure ending
      exact ⟨rfl, rfl, rfl⟩
    | answered status body =>
      rw [reply] at answering
      change Runs (if isSuccess status then takeBody label attempt status
        else takeRefusal label attempt status) l ended at answering
      split at answering
      next success => exact takeBody_scripted success reply answering scripted
      next refused => exact takeRefusal_scripted refused reply answering scripted
  exact ⟨congrArg (url :: ·) met.sends, met.tells, met.ends⟩

/-! ### All attempts -/

theorem ledger_succ (label : String) (script : Nat → Reply) (first made : Nat) :
    ledger label script first (made + 1) =
      announcement label first ++ [(script first).report label first] ++
        ledger label script (first + 1) made := by
  rw [ledger, List.range'_succ, List.flatMap_cons]
  rfl

private theorem attemptsFrom_cases {config : RetryConfig} {left attempt : Nat} {last : Option FetchError}
    {result : Except FetchError Response}
    (runs : Runs (attemptsFrom config label url (left + 1) attempt last) h result)
    (scripted : Scripted script attempt h) :
    ∃ l, Scripted script (attempt + 1) l ∧ addresses h = url :: addresses l ∧
      reports h = announcement label attempt ++ [(script attempt).report label attempt] ++ reports l ∧
      ((l = [] ∧ ¬ (script attempt).IsRetryable ∧
          result = (script attempt).read.map fun body => ⟨body, attempt + 1⟩) ∨
        ∃ e, (script attempt).read = .error e ∧ e.retryClass = .retry ∧
          Runs (attemptsFrom config label url left (attempt + 1) (some e)) l result) := by
  obtain ⟨k, l, signal, rfl, preparing, rest⟩ := runs_bind runs
  obtain ⟨before, after⟩ := scripted_append.mp scripted
  obtain ⟨rfl, silent, announced⟩ := prepare_scripted preparing before
  rw [silent, List.length_nil, Nat.add_zero] at after
  obtain ⟨k', l', ended, rfl, attempting, going⟩ := runs_bind rest
  obtain ⟨once, later⟩ := scripted_append.mp after
  obtain ⟨sends, tells, rfl⟩ := attemptOnce_scripted attempting once
  rw [sends, List.length_singleton] at later
  refine ⟨l', later, ?_, ?_, ?_⟩
  · rw [addresses_append, addresses_append, silent, sends, List.nil_append, List.singleton_append]
  · rw [reports_append, reports_append, announced, tells, List.append_assoc]
  · cases read : (script attempt).read with
    | ok body =>
      rw [Reply.ended, read] at going
      obtain ⟨rfl, rfl⟩ := runs_pure going
      refine .inl ⟨rfl, ?_, rfl⟩
      rintro ⟨e, failed, -⟩
      cases read.symm.trans failed
    | error e =>
      rw [Reply.ended, read] at going
      by_cases worth : e.retryClass = .retry
      · simp only [if_pos worth] at going
        exact .inr ⟨e, rfl, worth, going⟩
      · simp only [if_neg worth] at going
        obtain ⟨rfl, rfl⟩ := runs_pure going
        refine .inl ⟨rfl, ?_, rfl⟩
        rintro ⟨e', failed, retry⟩
        cases read.symm.trans failed
        exact worth retry

private theorem attemptsFrom_scripted {config : RetryConfig} {left attempt : Nat}
    {last : Option FetchError} {result : Except FetchError Response} (some_attempt : 0 < attempt + left)
    (early : ∀ i < attempt, (script i).IsRetryable)
    (told : 0 < attempt → ∃ e, last = some e ∧ (script (attempt - 1)).read = .error e)
    (runs : Runs (attemptsFrom config label url left attempt last) h result)
    (scripted : Scripted script attempt h) :
    ∃ made, Concludes script (attempt + left) (attempt + made) result ∧
      addresses h = List.replicate made url ∧ reports h = ledger label script attempt made := by
  induction left generalizing attempt last h with
  | zero =>
    obtain ⟨rfl, rfl⟩ := runs_pure runs
    obtain ⟨e, rfl, failed⟩ := told some_attempt
    exact ⟨0, .exhausted early failed, rfl, rfl⟩
  | succ left ih =>
    obtain ⟨l, later, sends, tells, stopped | again⟩ := attemptsFrom_cases runs scripted
    · obtain ⟨rfl, final, rfl⟩ := stopped
      exact ⟨1, .decided (Nat.lt_add_of_pos_right left.succ_pos) early final, sends, tells⟩
    · obtain ⟨e, read, worth, going⟩ := again
      have early' : ∀ i < attempt + 1, (script i).IsRetryable := by
        intro i below
        rcases Nat.lt_succ_iff_lt_or_eq.mp below with before | rfl
        · exact early i before
        · exact ⟨e, read, worth⟩
      obtain ⟨made, concludes, sends', tells'⟩ :=
        ih (by omega) early' (fun _ => ⟨e, rfl, read⟩) going later
      refine ⟨made + 1, ?_, ?_, ?_⟩
      · rwa [Nat.add_right_comm attempt 1 left, Nat.add_right_comm attempt 1 made] at concludes
      · rw [sends, sends', List.replicate_succ]
      · rw [tells, tells', ledger_succ]

private theorem perform_scripted {config : RetryConfig} {result : Except FetchError Response}
    (runs : Runs (perform config label url) h result) (scripted : Scripted script 0 h) :
    ∃ made, Concludes script config.attempts made result ∧ addresses h = List.replicate made url ∧
      reports h = ledger label script 0 made := by
  have some_attempt : 0 < 0 + config.attempts := by
    rw [Nat.zero_add]
    exact Nat.lt_of_lt_of_le Nat.one_pos (Nat.le_max_right _ 1)
  have whole := attemptsFrom_scripted some_attempt nofun nofun runs scripted
  simpa only [Nat.zero_add] using whole

private theorem exists_beyond {α : Type} {p : Program network α} {op : network.Op}
    {next : network.Answer op → Program network α} (after : After p h (.ask op next))
    (scripted : Scripted script 0 h) :
    ∃ r l a, Runs p (h ++ ⟨op, r⟩ :: l) a ∧ Scripted script 0 (h ++ ⟨op, r⟩ :: l) := by
  obtain ⟨more, a, runs, goes_on⟩ := exists_scripted script (0 + (addresses h).length) (.ask op next)
  obtain ⟨r, l, rfl, -⟩ : ∃ r l, more = ⟨op, r⟩ :: l ∧ Runs (next r) l a := by
    cases runs with
    | ask rest => exact ⟨_, _, rfl, rest⟩
  exact ⟨r, l, a, runs_iff_after.mpr (after.trans (runs_iff_after.mp runs)),
    scripted_append.mpr ⟨scripted, goes_on⟩⟩

/-- **An exchange goes by its script.** What the attempts meet decides how many requests are sent, all for
the same address, what is reported, and the result. Wherever the exchange waits, a cancellation makes it
end at once as cancelled; by then it has sent and reported a beginning of this. -/
theorem goes_by_script (config : RetryConfig) (label url : String) (script : Nat → Reply) :
    ∃ made outcome, Concludes script (max config.maxRetries.toNat 1) made outcome ∧
      (∃ h, Runs (perform config label url) h outcome ∧ Scripted script 0 h) ∧
      (∀ h result, Runs (perform config label url) h result → Scripted script 0 h →
        addresses h = List.replicate made url ∧ reports h = ledger label script 0 made ∧
          result = outcome) ∧
      ∀ h op next a, After (perform config label url) h (.ask op next) → Scripted script 0 h →
        waits op = some a → next a = .done (.error .cancelled) ∧
          addresses (h ++ [⟨op, a⟩]) <+: List.replicate made url ∧
          reports (h ++ [⟨op, a⟩]) <+: ledger label script 0 made := by
  obtain ⟨h₀, outcome, runs₀, scripted₀⟩ := exists_scripted script 0 (perform config label url)
  obtain ⟨made, concludes, -⟩ := perform_scripted runs₀ scripted₀
  have all : ∀ h result, Runs (perform config label url) h result → Scripted script 0 h →
      addresses h = List.replicate made url ∧ reports h = ledger label script 0 made ∧
        result = outcome := by
    intro h result runs scripted
    obtain ⟨made', concludes', sends, tells⟩ := perform_scripted runs scripted
    obtain ⟨rfl, same⟩ := concludes'.unique concludes
    exact ⟨sends, tells, same⟩
  refine ⟨made, outcome, concludes, ⟨h₀, runs₀, scripted₀⟩, all, ?_⟩
  intro h op next a after scripted waited
  obtain ⟨r, ended, rfl⟩ := ((heeds_perform config label url).after after).1 a waited
  obtain ⟨r', l, result, runs, goes_on⟩ := exists_beyond after scripted
  obtain ⟨sends, tells, -⟩ := all _ result runs goes_on
  -- what is sent and reported does not depend on the answer to a wait
  have send : addresses [⟨op, a⟩] = addresses [⟨op, r'⟩] := by cases op <;> rfl
  have report : reports [⟨op, a⟩] = reports [⟨op, r'⟩] := by cases op <;> rfl
  have front : h ++ [⟨op, r'⟩] <+: h ++ ⟨op, r'⟩ :: l := ⟨l, List.append_assoc h [⟨op, r'⟩] l⟩
  refine ⟨ended, ?_, ?_⟩
  · rw [addresses_append, send, ← addresses_append, ← sends]
    exact front.filterMap address?
  · rw [reports_append, report, ← reports_append, ← tells]
    exact front.filterMap event?

def recovering : Nat → Reply
  | 0 => .answered 429 (.error "body cut off")
  | 1 => .unanswered "no connection" false
  | _ => .answered 200 (.ok [112])

theorem goes_by_script_recovering :
    ∃ h, Runs (perform {} "coins" "/c/a") h (.ok ⟨[112], 3⟩) ∧ Scripted recovering 0 h ∧
      addresses h = ["/c/a", "/c/a", "/c/a"] ∧
      reports h = [⟨"coins", .rateLimited, 0, some 429⟩, ⟨"coins", .retry, 1, none⟩,
        ⟨"coins", .error, 1, none⟩, ⟨"coins", .retry, 2, none⟩, ⟨"coins", .success, 2, some 200⟩] := by
  have early : ∀ i < 2, (recovering i).IsRetryable := by
    intro i below
    rcases Nat.le_one_iff_eq_zero_or_eq_one.mp (Nat.le_of_lt_succ below) with rfl | rfl
    · exact ⟨_, rfl, rfl⟩
    · exact ⟨_, rfl, rfl⟩
  have final : ¬ (recovering 2).IsRetryable := by
    rintro ⟨e, failed, -⟩
    cases failed
  have decided : Concludes recovering 3 3 (.ok ⟨[112], 3⟩) := .decided (j := 2) (by decide) early final
  obtain ⟨made, outcome, concludes, ⟨h, runs, scripted⟩, all, -⟩ :=
    goes_by_script {} "coins" "/c/a" recovering
  obtain ⟨rfl, rfl⟩ := concludes.unique decided
  obtain ⟨sends, tells, -⟩ := all h _ runs scripted
  exact ⟨h, runs, scripted, sends, tells⟩

end MarketFeed.Exchange
