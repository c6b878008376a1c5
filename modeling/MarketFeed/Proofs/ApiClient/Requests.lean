import MarketFeed.Proofs.ApiClient.Provenance
import MarketFeed.Proofs.Endpoint.Addresses
import MarketFeed.Proofs.Exchange.Attempts
import Mathlib.Data.List.Forall2
/-!
The requests of one fetch, read off its history. A fetch that is not cancelled takes the credentials
that may be used in their order, and the turn of each is passed over without a token or sends one
block of requests for the address with this credential, until a request succeeds.
-/

set_option autoImplicit false
set_option relaxedAutoImplicit false

namespace MarketFeed

open Program

namespace ApiClient

def note (sent : List Exchange.Request) : Exchanged requests → List Exchange.Request
  | ⟨.inr (.inr op), answer⟩ => Exchange.note sent ⟨op, answer⟩
  | ⟨.inr (.inl _), _⟩ | ⟨.inl _, _⟩ => sent

def sent (h : List (Exchanged requests)) : List Exchange.Request := h.foldl note []

/-- The turn of one credential: for which kind a token was asked, whether it was given, and the
requests sent before the next token was asked for. -/
structure Turn where
  kind : Credential.Kind
  granted : Bool
  requests : List Exchange.Request

def noteTurn (turns : List Turn) : Exchanged requests → List Turn
  | ⟨.inr (.inl (.acquire kind)), Signal.elapsed⟩ => turns ++ [⟨kind, true, []⟩]
  | ⟨.inr (.inl (.acquire kind)), Signal.cancelled⟩ => turns ++ [⟨kind, false, []⟩]
  | ⟨.inr (.inl (.tryAcquire kind)), granted⟩ => turns ++ [⟨kind, granted, []⟩]
  | ⟨.inr (.inr op), answer⟩ =>
    turns.modifyLast fun t => { t with requests := Exchange.note t.requests ⟨op, answer⟩ }
  | ⟨.inr (.inl _), _⟩ | ⟨.inl _, _⟩ => turns

def turns (h : List (Exchanged requests)) : List Turn := h.foldl noteTurn []

/-- One of the requests of a turn succeeded. -/
def Turn.Succeeded (t : Turn) : Prop := ∃ r ∈ t.requests, r.Succeeded

/-- A turn is that of a credential: without a token it is passed over, with one its address is asked
for in one block of requests. -/
structure Turn.Of (c : ApiClient) (ids : List String) (key : Credential) (t : Turn) : Prop where
  kind : t.kind = key.kind
  skipped : t.granted = false → c.policy = .skip ∧ t.requests = []
  granted : t.granted = true → ∃ url, c.locator.url ids (some key) = .ok url ∧
    Exchange.Block c.retry.attempts url t.requests

/-- The turns are those of the credentials in their order up to the first that succeeds, or of all. -/
def Rotated (c : ApiClient) (ids : List String) (keys : List Credential) (turns : List Turn) : Prop :=
  ∃ tried left, keys = tried ++ left ∧ List.Forall₂ (Turn.Of c ids) tried turns ∧
    (∀ t ∈ turns.dropLast, ¬ t.Succeeded) ∧ (left ≠ [] → ∃ t ∈ turns.getLast?, t.Succeeded)

/-- Nothing was cancelled: the token was never found so, and no wait was ended by it. -/
def Undisturbed (h : List (Exchanged requests)) : Prop :=
  ∀ e ∈ h, waits e.op ≠ some e.answer ∧ e ≠ ⟨.inr (.inl .isCancelled), true⟩

variable {c : ApiClient} {ids : List String} {h : List (Exchanged requests)}

theorem Undisturbed.head {e : Exchanged requests} (calm : Undisturbed (e :: h)) :
    waits e.op ≠ some e.answer ∧ e ≠ ⟨.inr (.inl .isCancelled), true⟩ := calm e List.mem_cons_self

theorem Undisturbed.tail {e : Exchanged requests} (calm : Undisturbed (e :: h)) : Undisturbed h :=
  fun e' member => calm e' (List.mem_cons_of_mem e member)

theorem Undisturbed.left {k : List (Exchanged requests)} (calm : Undisturbed (h ++ k)) :
    Undisturbed h := fun e member => calm e (List.mem_append_left k member)

theorem Undisturbed.right {k : List (Exchanged requests)} (calm : Undisturbed (h ++ k)) :
    Undisturbed k := fun e member => calm e (List.mem_append_right h member)

private theorem Undisturbed.network {k : List (Exchanged Exchange.network)}
    (calm : Undisturbed (k.map overNetwork)) : Exchange.Undisturbed k :=
  fun _ member => (calm _ (List.mem_map_of_mem member)).1

private theorem foldl_note_network (k : List (Exchanged Exchange.network))
    (acc : List Exchange.Request) :
    (k.map overNetwork).foldl note acc = k.foldl Exchange.note acc := List.foldl_map

private theorem foldl_noteTurn_network (k : List (Exchanged Exchange.network)) (acc : List Turn)
    (t : Turn) :
    (k.map overNetwork).foldl noteTurn (acc ++ [t]) =
      acc ++ [{ t with requests := k.foldl Exchange.note t.requests }] := by
  induction k generalizing t with
  | nil => rfl
  | cons e k ih =>
    rw [List.map_cons, List.foldl_cons]
    have one : noteTurn (acc ++ [t]) (overNetwork e) =
        acc ++ [{ t with requests := Exchange.note t.requests e }] := List.modifyLast_concat _ _ _
    rw [one, ih]
    rfl

private theorem useCredential_notes {key : Credential} {url : String}
    {result : Except FetchError Exchange.Response} (located : c.locator.url ids (some key) = .ok url)
    (runs : Runs (c.useCredential ids key) h result) (calm : Undisturbed h) :
    ∃ block, (∀ acc, h.foldl note acc = acc ++ block) ∧
      (∀ acc t, t.requests = [] → h.foldl noteTurn (acc ++ [t]) = acc ++ [{ t with requests := block }]) ∧
      Exchange.Block c.retry.attempts url block ∧
      ((∃ response, result = .ok response) ↔ ∃ r ∈ block, r.Succeeded) ∧
      ∀ e, result = .error e → e.retryClass ≠ .never := by
  rw [useCredential, located] at runs
  obtain ⟨_, rfl, within⟩ := runs_inSecond runs
  obtain ⟨k, rfl, performs⟩ := runs_inSecond within
  rw [List.map_map] at calm ⊢
  obtain ⟨block, notes, whole⟩ := Exchange.perform_notes performs (Undisturbed.network calm)
  refine ⟨block, fun acc => ?_, fun acc t unused => ?_, whole⟩
  · exact (foldl_note_network k acc).trans (notes acc)
  · refine (foldl_noteTurn_network k acc t).trans ?_
    rw [unused, notes, List.nil_append]

private theorem grant_notes {policy : RateLimit.Policy} {kind : Credential.Kind} {α : Type}
    {f : KeyRing.Admission → Program (KeyRing.rotation Exchange.Response) α} {result : α}
    (runs : Runs (((KeyRing.grant policy kind).bind f).interpret (c.carryOut ids)) h result)
    (calm : Undisturbed h) :
    ∃ e k granted, h = e :: k ∧ (∀ acc, note acc e = acc) ∧
      (∀ acc, noteTurn acc e = acc ++ [⟨kind, granted, []⟩]) ∧ (granted = false → policy = .skip) ∧
      Runs ((f (if granted then .granted else .skipped)).interpret (c.carryOut ids)) k result := by
  cases policy with
  | wait =>
    obtain ⟨signal, k, rfl, going⟩ :=
      runs_call_bind (S := requests) (.inr (.inl (.acquire kind))) runs
    cases signal with
    | cancelled => exact absurd rfl calm.head.1
    | elapsed => exact ⟨_, k, true, rfl, fun _ => rfl, fun _ => rfl, nofun, going⟩
  | skip =>
    obtain ⟨taken, k, rfl, going⟩ :=
      runs_call_bind (S := requests) (.inr (.inl (.tryAcquire kind))) runs
    refine ⟨_, k, taken, rfl, fun _ => rfl, fun _ => rfl, fun _ => rfl, ?_⟩
    cases taken <;> exact going

private theorem Rotated.nil : c.Rotated ids [] [] :=
  ⟨[], [], rfl, .nil, nofun, fun spare => absurd rfl spare⟩

private theorem Rotated.stop {key : Credential} {t : Turn} (keys : List Credential)
    (here : t.Of c ids key) (succeeded : t.Succeeded) : c.Rotated ids (key :: keys) [t] :=
  ⟨[key], keys, rfl, .cons here .nil, nofun, fun _ => ⟨t, rfl, succeeded⟩⟩

private theorem Rotated.cons {key : Credential} {t : Turn} {keys : List Credential}
    {turns : List Turn} (here : t.Of c ids key) (failed : ¬ t.Succeeded)
    (later : c.Rotated ids keys turns) : c.Rotated ids (key :: keys) (t :: turns) := by
  obtain ⟨tried, left, rfl, each, failures, stopped⟩ := later
  refine ⟨key :: tried, left, rfl, .cons here each, ?_, fun spare => ?_⟩
  · cases turns with
    | nil => exact nofun
    | cons t' turns => exact List.forall_mem_cons.mpr ⟨failed, failures⟩
  · obtain ⟨t', last, succeeded⟩ := stopped spare
    refine ⟨t', ?_, succeeded⟩
    rw [List.getLast?_cons, Option.mem_def.mp last]
    rfl

variable {keys : List Credential} {journal : KeyRing.Journal} {last : Option FetchError}
  {result : Except FetchError Exchange.Response}

private def conclude (policy : RateLimit.Policy) (key : Credential) (keys : List Credential)
    (journal : KeyRing.Journal) : Except FetchError Exchange.Response →
      Program (KeyRing.rotation Exchange.Response) (Except FetchError Exchange.Response)
  | .ok response => (KeyRing.clear key.secret).bind fun _ => pure (.ok response)
  | .error cause =>
    if cause.retryClass = .never then pure (.error cause)
    else (KeyRing.blame key.secret).bind fun _ =>
      KeyRing.rotateFrom policy keys (journal.record (.failed key.masked cause.message)) (some cause)

private theorem conclude_notes {key : Credential} {used : Except FetchError Exchange.Response}
    (runs : Runs ((conclude c.policy key keys journal used).interpret (c.carryOut ids)) h result)
    (lasting : ∀ e, used = .error e → e.retryClass ≠ .never) :
    ∃ e k, h = e :: k ∧ (∀ acc, note acc e = acc) ∧ (∀ acc, noteTurn acc e = acc) ∧
      ((∃ response, used = .ok response) ∧ k = [] ∨
        (¬ ∃ response, used = .ok response) ∧ ∃ journal last,
          Runs ((KeyRing.rotateFrom c.policy keys journal last).interpret (c.carryOut ids)) k
            result) := by
  cases used with
  | ok response =>
    obtain ⟨_, _, rfl, done⟩ :=
      runs_call_bind (S := requests) (.inr (.inl (.markSucceeded key.secret))) runs
    obtain ⟨rfl, -⟩ := runs_pure done
    exact ⟨_, [], rfl, fun _ => rfl, fun _ => rfl, .inl ⟨⟨response, rfl⟩, rfl⟩⟩
  | error cause =>
    rw [conclude, if_neg (lasting cause rfl)] at runs
    obtain ⟨_, k, rfl, onward⟩ :=
      runs_call_bind (S := requests) (.inr (.inl (.markFailed key.secret))) runs
    exact ⟨_, k, rfl, fun _ => rfl, fun _ => rfl, .inr ⟨nofun, _, _, onward⟩⟩

private theorem rotateFrom_first {key : Credential} {url : String}
    (located : c.locator.url ids (some key) = .ok url)
    (runs : Runs ((KeyRing.rotateFrom c.policy (key :: keys) journal last).interpret
      (c.carryOut ids)) h result)
    (calm : Undisturbed h) :
    ∃ t k l, h = k ++ l ∧ (∀ acc, k.foldl note acc = acc ++ t.requests) ∧
      (∀ acc, k.foldl noteTurn acc = acc ++ [t]) ∧ t.Of c ids key ∧
      (t.Succeeded ∧ l = [] ∨ ¬ t.Succeeded ∧ ∃ journal last,
        Runs ((KeyRing.rotateFrom c.policy keys journal last).interpret (c.carryOut ids)) l
          result) := by
  obtain ⟨isOff, k, rfl, granting⟩ :=
    runs_call_bind (S := requests) (.inr (.inl .isCancelled)) runs
  cases isOff with
  | true => exact absurd rfl calm.head.2
  | false =>
    set first : Exchanged requests := ⟨.inr (.inl .isCancelled), false⟩
    obtain ⟨e, k, granted, rfl, silent, begun, skipping, going⟩ := grant_notes granting calm.tail
    cases granted with
    | false =>
      refine ⟨⟨key.kind, false, []⟩, [first, e], k, rfl, fun acc => ?_, begun, ?_, ?_⟩
      · exact (silent acc).trans (List.append_nil acc).symm
      · exact ⟨rfl, fun _ => ⟨skipping rfl, rfl⟩, nofun⟩
      · exact .inr ⟨nofun, _, last, going⟩
    | true =>
      obtain ⟨l, m, used, rfl, using_, ending⟩ := runs_bind (p := c.useCredential ids key) going
      obtain ⟨block, notes, grouped, whole, ok, error⟩ :=
        useCredential_notes located using_ calm.tail.tail.left
      -- only the use of the credential sends anything, between the token and the conclusion
      have concludes : Runs ((conclude c.policy key keys journal used).interpret (c.carryOut ids)) m
          result := by cases used <;> exact ending
      obtain ⟨e', m, rfl, quiet, still, outcome⟩ := conclude_notes concludes error
      refine ⟨⟨key.kind, true, block⟩, first :: e :: l ++ [e'], m, ?_, fun acc => ?_, fun acc => ?_,
        ⟨rfl, nofun, fun _ => ⟨url, located, whole⟩⟩, outcome.imp ?_ ?_⟩
      · rw [List.append_assoc]
        rfl
      · have asked : (first :: e :: l).foldl note acc = acc ++ block :=
          (congrArg (l.foldl note) (silent acc)).trans (notes acc)
        rw [List.foldl_append, asked]
        exact quiet _
      · have asked : (first :: e :: l).foldl noteTurn acc = acc ++ [⟨key.kind, true, block⟩] :=
          (congrArg (l.foldl noteTurn) (begun acc)).trans (grouped acc _ rfl)
        rw [List.foldl_append, asked]
        exact still _
      · exact fun ⟨responded, ended⟩ => ⟨ok.mp responded, ended⟩
      · exact fun ⟨refused, onward⟩ => ⟨fun succeeded => refused (ok.mpr succeeded), onward⟩

private theorem rotateFrom_notes (accepted : ∀ key, ∃ url, c.locator.url ids (some key) = .ok url)
    (runs : Runs ((KeyRing.rotateFrom c.policy keys journal last).interpret (c.carryOut ids)) h
      result)
    (calm : Undisturbed h) :
    ∃ turns, (∀ acc, h.foldl note acc = acc ++ turns.flatMap Turn.requests) ∧
      (∀ acc, h.foldl noteTurn acc = acc ++ turns) ∧ c.Rotated ids keys turns := by
  induction keys generalizing h journal last with
  | nil =>
    obtain ⟨rfl, -⟩ := runs_pure runs
    exact ⟨[], fun acc => (List.append_nil acc).symm, fun acc => (List.append_nil acc).symm, .nil⟩
  | cons key keys ih =>
    obtain ⟨url, located⟩ := accepted key
    obtain ⟨t, k, l, rfl, notes, begun, here, stopped | ⟨failed, _, _, onward⟩⟩ :=
      rotateFrom_first located runs calm
    · obtain ⟨succeeded, rfl⟩ := stopped
      rw [List.append_nil]
      refine ⟨[t], fun acc => ?_, begun, .stop keys here succeeded⟩
      rw [notes, List.flatMap_singleton]
    · obtain ⟨turns, later, grouped, rest⟩ := ih onward calm.right
      refine ⟨t :: turns, fun acc => ?_, fun acc => ?_, rest.cons here failed⟩
      · rw [List.foldl_append, notes, later, List.flatMap_cons, List.append_assoc]
      · rw [List.foldl_append, begun, grouped, List.append_assoc]
        rfl

private theorem rotate_notes (accepted : ∀ key, ∃ url, c.locator.url ids (some key) = .ok url)
    (runs : Runs ((KeyRing.rotate c.policy keys).interpret (c.carryOut ids)) h result)
    (calm : Undisturbed h) :
    ∃ turns, (∀ acc, h.foldl note acc = acc ++ turns.flatMap Turn.requests) ∧
      (∀ acc, h.foldl noteTurn acc = acc ++ turns) ∧ c.Rotated ids keys turns := by
  cases keys with
  | nil =>
    obtain ⟨rfl, -⟩ := runs_pure runs
    exact ⟨[], fun acc => (List.append_nil acc).symm, fun acc => (List.append_nil acc).symm, .nil⟩
  | cons key keys => exact rotateFrom_notes accepted runs calm

variable {row : List Turn}

private theorem Rotated.turn (rotated : c.Rotated ids keys row) :
    ∀ t ∈ row, ∃ key, t.Of c ids key := by
  obtain ⟨tried, left, rfl, each, -, -⟩ := rotated
  induction each with
  | nil => nofun
  | cons here _ ih => exact List.forall_mem_cons.mpr ⟨⟨_, here⟩, ih⟩

private theorem Turn.Of.failures {key : Credential} {t : Turn} (here : t.Of c ids key) :
    ∀ r ∈ t.requests.dropLast, ¬ r.Succeeded := by
  cases granted : t.granted with
  | false =>
    rw [(here.skipped granted).2]
    nofun
  | true =>
    obtain ⟨url, -, before, last, whole, -, -, retried, -⟩ := here.granted granted
    rw [whole, List.dropLast_concat]
    exact fun r member => (retried r member).not_succeeded

private theorem Turn.Of.length_le {key : Credential} {t : Turn} (here : t.Of c ids key) :
    t.requests.length ≤ c.retry.attempts := by
  cases granted : t.granted with
  | false =>
    rw [(here.skipped granted).2]
    exact Nat.zero_le _
  | true =>
    obtain ⟨url, -, before, last, -, bounded, -⟩ := here.granted granted
    exact bounded

private theorem Rotated.failures (rotated : c.Rotated ids keys row) :
    ∀ r ∈ (row.flatMap Turn.requests).dropLast, ¬ r.Succeeded := by
  rcases List.eq_nil_or_concat row with rfl | ⟨first, t, rfl⟩
  · nofun
  · obtain ⟨key, here⟩ := rotated.turn t (by simp)
    obtain ⟨-, -, -, -, failures, -⟩ := rotated
    intro r member succeeded
    rw [List.concat_eq_append, List.dropLast_concat] at failures
    rw [List.concat_eq_append, List.flatMap_append, List.flatMap_singleton] at member
    rcases List.eq_nil_or_concat t.requests with none | ⟨before, last, some⟩
    · rw [none, List.append_nil] at member
      obtain ⟨t', earlier, r_mem⟩ := List.mem_flatMap.mp ((List.dropLast_sublist _).subset member)
      exact failures t' earlier ⟨r, r_mem, succeeded⟩
    · have last_only := here.failures
      rw [some, List.concat_eq_append, List.dropLast_concat] at last_only
      rw [some, List.concat_eq_append, ← List.append_assoc, List.dropLast_concat] at member
      rcases List.mem_append.mp member with earlier | now
      · obtain ⟨t', earlier, r_mem⟩ := List.mem_flatMap.mp earlier
        exact failures t' earlier ⟨r, r_mem, succeeded⟩
      · exact last_only r now succeeded

private theorem Rotated.length_le (rotated : c.Rotated ids keys row) :
    (row.flatMap Turn.requests).length ≤ keys.length * c.retry.attempts := by
  obtain ⟨tried, left, rfl, each, -, -⟩ := rotated
  have total : (row.flatMap Turn.requests).length ≤ tried.length * c.retry.attempts := by
    induction each with
    | nil => exact Nat.zero_le _
    | cons here _ ih =>
      rw [List.flatMap_cons, List.length_append, List.length_cons, Nat.succ_mul, Nat.add_comm]
      exact Nat.add_le_add ih here.length_le
  refine Nat.le_trans total (Nat.mul_le_mul_right _ ?_)
  rw [List.length_append]
  exact Nat.le_add_right _ _

private theorem url_of_fits (fits : c.mode = .single → ids.length = 1) (key : Credential) :
    ∃ url, c.locator.url ids (some key) = .ok url :=
  Endpoint.Locator.url_of_fits fits (some key)

/-- The requests of an undisturbed fetch come in blocks, one for each credential that may be used, in
that order, as far as they are reached and get a token. Each block asks for the address with its
credential, at most as often as there are attempts and only as long as the failures are worth another
one. A request that succeeds is the last one. -/
theorem fetch_in_blocks (nonempty : ids ≠ []) (fits : c.mode = .single → ids.length = 1)
    {result : Except FetchError Payloads} (runs : Runs (c.fetch ids) h result)
    (calm : Undisturbed h) :
    ∃ keys rest, h = ⟨.inl (.available c.locator.isFine), keys⟩ :: rest ∧
      c.Rotated ids keys (turns h) ∧ sent h = (turns h).flatMap Turn.requests ∧
      (∀ r ∈ (sent h).dropLast, ¬ r.Succeeded) ∧
      (sent h).length ≤ keys.length * c.retry.attempts := by
  rw [fetch, if_neg (by rwa [List.isEmpty_iff])] at runs
  obtain ⟨keys, k, rfl, rotating⟩ :=
    runs_call_bind (S := requests) (.inl (.available c.locator.isFine)) runs
  obtain ⟨k, l, response, rfl, rotates, splitting⟩ := runs_bind
    (p := (KeyRing.rotate c.policy keys).interpret (c.carryOut ids)) rotating
  obtain rfl : l = [] := by
    cases response with
    | error e => exact (runs_pure splitting).1
    | ok r => exact (runs_pure splitting).1
  rw [List.append_nil] at calm ⊢
  obtain ⟨row, notes, grouped, rotated⟩ :=
    rotate_notes (url_of_fits fits) rotates calm.tail
  have sent_eq : sent (⟨.inl (.available c.locator.isFine), keys⟩ :: k) =
      row.flatMap Turn.requests := notes []
  have turns_eq : turns (⟨.inl (.available c.locator.isFine), keys⟩ :: k) = row := grouped []
  rw [sent_eq, turns_eq]
  exact ⟨keys, k, rfl, rotated, rfl, rotated.failures, rotated.length_le⟩

def answering : List Nat → (op : requests.Op) → List Nat × requests.Answer op
  | statuses, .inl (.available _) => (statuses, [⟨"p", .paid⟩, Credential.unkeyed])
  | statuses, .inr (.inl .isCancelled) => (statuses, false)
  | statuses, .inr (.inl (.acquire _)) => (statuses, Signal.elapsed)
  | statuses, .inr (.inl (.tryAcquire _)) => (statuses, true)
  | statuses, .inr (.inl (.markFailed _)) => (statuses, ())
  | statuses, .inr (.inl (.markSucceeded _)) => (statuses, ())
  | statuses, .inr (.inr (.report _)) => (statuses, ())
  | statuses, .inr (.inr (.draw _)) => (statuses, (0 : Nat))
  | statuses, .inr (.inr (.pause _)) => (statuses, Signal.elapsed)
  | statuses, .inr (.inr (.send _)) =>
    (statuses.tail, Exchange.Sent.answered (statuses.headD 404))
  | statuses, .inr (.inr .receive) => (statuses, Exchange.Received.body [])

def twiceClient : ApiClient :=
  ⟨"coins", ⟨{ path := "/c/\x7b\x7bid\x7d\x7d" }, ⟨"/c/\x7b\x7bid\x7d\x7d", .single⟩⟩, .skip,
    { maxRetries := 2 }⟩

def refusedTwice : List (Exchanged requests) × Except FetchError Payloads :=
  (twiceClient.fetch ["a"]).recorded answering [503, 404, 200]

theorem fetch_in_blocks_refusedTwice :
    Undisturbed refusedTwice.1 ∧
      (sent refusedTwice.1).map Exchange.Request.url =
        ["https://pro-api.coingecko.com/api/v3/c/a?x_cg_pro_api_key=p",
          "https://pro-api.coingecko.com/api/v3/c/a?x_cg_pro_api_key=p",
          "https://api.coingecko.com/api/v3/c/a"] ∧
      sent refusedTwice.1 = (turns refusedTwice.1).flatMap Turn.requests ∧
      ∀ r ∈ (sent refusedTwice.1).dropLast, ¬ r.Succeeded := by
  have runs : Runs (twiceClient.fetch ["a"]) refusedTwice.1 refusedTwice.2 :=
    runs_recorded answering _ _
  have calm : Undisturbed refusedTwice.1 := by
    intro e member
    obtain ⟨op, answer⟩ := e
    obtain ⟨statuses, answered⟩ := answered_of_recorded _ member
    obtain rfl : answer = (answering statuses op).2 := answered
    rcases op with ⟨_⟩ | (_ | _ | _ | _ | _) | (_ | _ | _ | _ | _) <;> exact ⟨nofun, nofun⟩
  have fits : twiceClient.mode = .single → ["a"].length = 1 := fun _ => rfl
  obtain ⟨_, _, -, -, whole, failures, -⟩ :=
    fetch_in_blocks (List.cons_ne_nil "a" []) fits runs calm
  exact ⟨calm, by decide +kernel, whole, failures⟩

end ApiClient

end MarketFeed
