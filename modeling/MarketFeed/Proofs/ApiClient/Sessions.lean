import Mathlib.Data.List.Forall2
import MarketFeed.ApiClient
import MarketFeed.Proofs.KeyRing.Sessions
/-!
A fetch is a session with the key ring: each use of a credential is carried out by an exchange for the
address with it, and the body of the response is cut when the session has ended.
-/

set_option autoImplicit false
set_option relaxedAutoImplicit false

namespace MarketFeed

open Program Simulation

namespace Program

variable {S T U : Signature} {α : Type}

theorem interpret_inSecond (carry : (op : (S.sum T).Op) → Program U ((S.sum T).Answer op))
    (p : Program T α) :
    (p.inSecond (S := S)).interpret carry = p.interpret fun op => carry (.inr op) := by
  induction p with
  | done a => rfl
  | ask op next ih => exact congrArg ((carry (.inr op)).bind) (funext ih)

end Program

namespace ApiClient

/-- A key ring, and a network of which nothing is known. -/
def surroundings (R : Type) [Quantity R] : Service (KeyRing R) requests :=
  Keys.selections.service.sum
    (Keys.controls.service.sum (Service.any (KeyRing R) Exchange.network))

variable {R : Type} [Quantity R] {c : ApiClient} {ids : List String}

theorem forward_surroundings : (surroundings R).Forward :=
  Keys.selections.forward_service.sum
    (Keys.controls.forward_service.sum Service.forward_any)

/-- Surroundings in which nothing takes time: each request is answered by the next reply of a script, its
status and its body, and no request is answered when none is left. -/
def replying (script : List (Nat × Bytes)) (op : requests.Op) (now : Instant) (k : KeyRing R) :
    List (Nat × Bytes) × requests.Answer op × Instant × KeyRing R :=
  match op with
  | .inl (.available fine) => (script, (k.available now fine).1, now, (k.available now fine).2)
  | .inr (.inl op) => (script, (k.prompt now op).1, now, (k.prompt now op).2)
  | .inr (.inr (.report _)) => (script, (), now, k)
  | .inr (.inr (.draw _)) => (script, (0 : Nat), now, k)
  | .inr (.inr (.pause _)) => (script, Signal.elapsed, now, k)
  | .inr (.inr (.send _)) =>
    (script, (script.head?.elim (.failed "" true) fun reply => .answered reply.1 : Exchange.Sent), now, k)
  | .inr (.inr .receive) =>
    (script.tail, Exchange.Received.body ((script.head?.map Prod.snd).getD []), now, k)

theorem surroundings_replying (script : List (Nat × Bytes)) (op : requests.Op) (now : Instant)
    (k : KeyRing R) :
    surroundings R op now k (replying script op now k).2.1 (replying script op now k).2.2.1
      (replying script op now k).2.2.2 := by
  match op with
  | .inl (.available fine) => exact .atOnce false rfl
  | .inr (.inl op) => exact k.service_prompt now op
  | .inr (.inr op) => cases op <;> exact ⟨Nat.le_refl now, rfl⟩

def carrySession (c : ApiClient) (ids : List String) :
    (op : (KeyRing.sessions Exchange.Response).Op) →
      Program requests ((KeyRing.sessions Exchange.Response).Answer op)
  | .inl question => Program.call (S := requests) (.inl question)
  | .inr op => c.carryOut ids op

def cut (c : ApiClient) (ids : List String) :
    Except FetchError Exchange.Response → Except FetchError Payloads
  | .error e => .error e
  | .ok response => Payloads.split c.mode ids response.body

theorem fetch_eq (nonempty : ids ≠ []) :
    c.fetch ids = ((KeyRing.session c.policy c.locator.isFine).interpret (c.carrySession ids)).bind
      fun r => .done (c.cut ids r) := by
  have rotated : ∀ keys, (KeyRing.rotate c.policy keys).inSecond.interpret (c.carrySession ids) =
      (KeyRing.rotate c.policy keys).interpret (c.carryOut ids) :=
    fun keys => interpret_inSecond (c.carrySession ids) (KeyRing.rotate c.policy keys)
  have split : (fun r => match r with
      | .error e => pure (.error e)
      | .ok response => pure (Payloads.split c.mode ids response.body)) =
      fun r => (.done (c.cut ids r) : Program requests (Except FetchError Payloads)) := by
    funext r
    cases r <;> rfl
  rw [fetch, if_neg (by rwa [List.isEmpty_iff])]
  refine congrArg (Program.ask (S := requests) (.inl (.available c.locator.isFine))) (funext fun keys => ?_)
  exact (congrArg (bind _) split).trans
    (congrArg (fun p => p.bind fun r => .done (c.cut ids r)) (rotated keys).symm)

variable {now later : Instant} {k k' : KeyRing R} {log : List (Spanned requests)}

theorem elapses_useCredential {key : Credential} {r : Except FetchError Exchange.Response}
    (elapses : (c.useCredential ids key).Elapses (surroundings R) now k log r later k') :
    now ≤ later ∧ k' = k := by
  refine ⟨(elapses.chronological forward_surroundings).le, ?_⟩
  rw [useCredential] at elapses
  split at elapses
  · exact (elapses_pure elapses).2.2.2
  · obtain ⟨_, rfl, within_⟩ := elapses_inSecond elapses
    obtain ⟨_, rfl, performs⟩ := elapses_inSecond within_
    exact performs.eq_of_any

private theorem serving_of_elapses {op : (KeyRing.sessions Exchange.Response).Op}
    {r : (KeyRing.sessions Exchange.Response).Answer op}
    (elapses : (c.carrySession ids op).Elapses (surroundings R) now k log r later k') :
    ∃ asked, now ≤ asked ∧ KeyRing.serving R Exchange.Response op asked k r later k' := by
  match op with
  | .inl question =>
    obtain ⟨asked, passed, served, -⟩ := elapses_call elapses
    exact ⟨asked, passed, served⟩
  | .inr (.inl question) =>
    obtain ⟨asked, passed, served, -⟩ := elapses_call elapses
    exact ⟨asked, passed, served⟩
  | .inr (.inr (.call key)) => exact ⟨now, Nat.le_refl now, elapses_useCredential elapses⟩

/-- The exchanges of a fetch carry out a session with the key ring. -/
theorem session_of_fetch (nonempty : ids ≠ []) {r : Except FetchError Payloads}
    (elapses : (c.fetch ids).Elapses (surroundings R) now k log r later k') :
    ∃ requests ended, (KeyRing.session c.policy c.locator.isFine).Elapses
        (KeyRing.serving R Exchange.Response) now k requests ended later k' ∧
      Carried (surroundings R) (c.carrySession ids) requests log ∧ r = c.cut ids ended := by
  rw [fetch_eq nonempty] at elapses
  obtain ⟨log, _, ended, _, _, rfl, carrying, ending⟩ := elapses_bind elapses
  obtain ⟨rfl, rfl, rfl, rfl⟩ := elapses_pure ending
  obtain ⟨requests, session, carried⟩ := elapses_interpret serving_of_elapses carrying
  rw [List.append_nil]
  exact ⟨requests, ended, session, carried, rfl⟩

theorem sessions_of_fetches {logs : List (List (Spanned requests))}
    (series : Series (surroundings R) (fun p => ∃ (c : ApiClient) (ids : List String), p = c.fetch ids)
      now k logs later k') :
    ∃ sessions, Series (KeyRing.serving R Exchange.Response)
        (fun p => ∃ policy fine, p = KeyRing.session policy fine) now k sessions later k' ∧
      List.Forall₂ (fun requests log => ∃ (c : ApiClient) (ids : List String),
        Carried (surroundings R) (c.carrySession ids) requests log) sessions
        (logs.filter fun log => !log.isEmpty) := by
  induction series with
  | none => exact ⟨[], .none, .nil⟩
  | @next logs between later mid k' p log r before allowed elapses ih =>
    obtain ⟨c, ids, rfl⟩ := allowed
    obtain ⟨sessions, series, carried⟩ := ih
    by_cases empty : ids = []
    · subst empty
      obtain ⟨rfl, -, rfl, rfl⟩ := elapses_pure elapses
      rw [List.filter_append, List.filter_cons_of_neg (by simp), List.filter_nil, List.append_nil]
      exact ⟨sessions, series, carried⟩
    · obtain ⟨requests, ended, session, one, -⟩ := session_of_fetch empty elapses
      have asked : log ≠ [] := by
        rintro rfl
        have runs := elapses.runs
        rw [fetch, if_neg (by rwa [List.isEmpty_iff])] at runs
        cases runs
      refine ⟨sessions ++ [requests], .next series ⟨_, _, rfl⟩ session, ?_⟩
      rw [List.filter_append, List.filter_cons_of_pos (by simpa using asked), List.filter_nil]
      exact List.rel_append carried (.cons ⟨c, ids, one⟩ .nil)

end ApiClient

end MarketFeed
