import MarketFeed.Proofs.ApiClient.Requests
import MarketFeed.Proofs.Exchange.Outcomes
import MarketFeed.Proofs.KeyRing.Turns
import MarketFeed.Proofs.Payloads.Splitting
/-!
How a fetch goes from one credential to the next. A credential whose use fails is benched and the next one
has its turn, so a fetch that fails for want of a better credential has tried all of them. The body of the
response is cut when the rotation has ended: if it cannot be cut, the credential is in good standing and
those after it have no turn.
-/

set_option autoImplicit false
set_option relaxedAutoImplicit false

namespace MarketFeed

open Program Simulation

namespace Endpoint.Locator

theorem retryClass_of_url {l : Locator} {ids : List String} {key : Option Credential} {e : FetchError}
    (refused : l.url ids key = .error e) : e.retryClass = .never := by
  have faulty : ∀ mode (address : String),
      (do l.require mode; return address) = Except.error e → e.retryClass = .never := by
    intro mode address unlike
    rw [require] at unlike
    split at unlike <;> cases unlike
    rfl
  rw [url.eq_def] at refused
  split at refused
  · exact faulty .batch _ refused
  · exact faulty .single _ refused
  · cases refused
    rfl

end Endpoint.Locator

namespace ApiClient

variable {R : Type} [Quantity R] {c : ApiClient} {ids : List String}

private theorem fails_useCredential {key : Credential} {h : List (Exchanged requests)} {e : FetchError}
    (runs : Runs (c.useCredential ids key) h (.error e)) :
    Exchange.Unusable e ∨ e.retryClass = .never := by
  rw [useCredential] at runs
  split at runs
  · rename_i refused
    cases (runs_pure runs).2
    exact .inr (Endpoint.Locator.retryClass_of_url refused)
  · obtain ⟨_, rfl, within_⟩ := runs_inSecond runs
    obtain ⟨k, rfl, performs⟩ := runs_inSecond within_
    refine ((Exchange.fails_perform (h := []) _ _ _).runs performs e rfl).imp_right ?_
    rintro rfl
    rfl

private theorem unusable_of_carried {requests : List (Spanned (KeyRing.sessions Exchange.Response))}
    {log : List (Spanned ApiClient.requests)} {key : Credential} {e : FetchError}
    (carried : Carried (surroundings R) (c.carrySession ids) requests log)
    (failed : ⟨.inr (.inr (.call key)), .error e⟩ ∈ requests.map Spanned.exchanged)
    (lasting : e.retryClass ≠ .never) : Exchange.Unusable e := by
  obtain ⟨⟨asked, answered, exchanged⟩, member, rfl⟩ := List.mem_map.mp failed
  obtain ⟨_, _, _, _, elapses⟩ := carried.elapses _ member
  exact (fails_useCredential elapses.runs).resolve_right lasting

private theorem cut_error {ended : Except FetchError Exchange.Response} {e : FetchError}
    (failed : c.cut ids ended = .error e) :
    ended = .error e ∨ ∃ response message, ended = .ok response ∧ c.mode = .batch ∧
      Payloads.split .batch ids response.body = .error e ∧ e = .invalidResponse message := by
  cases ended with
  | error cause =>
    cases failed
    exact .inl rfl
  | ok response =>
    have refused : Payloads.split c.mode ids response.body = .error e := failed
    cases mode : c.mode with
    | single =>
      rw [mode] at refused
      cases ids <;> cases refused
    | batch =>
      rw [mode] at refused
      obtain ⟨message, rfl⟩ := Payloads.split_error refused
      exact .inr ⟨response, message, rfl, rfl, refused, rfl⟩

variable {now later : Instant} {k k' : KeyRing R} {log : List (Spanned requests)}

/-- A fetch goes through the credentials that may be used. Whatever keeps a response with one of them from
being of use benches that credential, and the next one has its turn. So a fetch fails for want of a better
credential only if each of them was passed over without a token or is in cooldown, or if the body of the
response could not be cut: then its credential is not benched, and no other one had a turn after it. -/
theorem fetch_rotates {r : Except FetchError Payloads}
    (elapses : (c.fetch ids).Elapses (surroundings R) now k log r later k') :
    ids = [] ∧ log = [] ∧ r = .ok ∅ ∨
    ∃ begun requests ended passed left, now ≤ begun ∧
      Carried (surroundings R) (c.carrySession ids)
        (KeyRing.offered begun c.locator.isFine (k.available begun c.locator.isFine).1 :: requests) log ∧
      (k.available begun c.locator.isFine).1 = passed.map Prod.fst ++ left ∧
      KeyRing.Turned c.policy passed left (requests.map Spanned.exchanged) ended ∧
      (∀ p ∈ passed, ∀ e, p.2 = .failed e → Exchange.Unusable e) ∧
      (∀ p ∈ passed, p.2 = .skipped ∨
        KeyRing.InCooldown k.cooldown.window begun later k' p.1.secret ∨
        (∃ response, ended = .ok response) ∧ KeyRing.cleared later p.1.secret ∈ requests) ∧
      r = c.cut ids ended ∧
      ∀ e, r = .error e → e.retryClass ≠ .never →
        (left = [] ∧ ∀ p ∈ passed, p.2 = .skipped ∨
          KeyRing.InCooldown k.cooldown.window begun later k' p.1.secret) ∨
        ∃ key rest response message, left = key :: rest ∧ ended = .ok response ∧ c.mode = .batch ∧
          Payloads.split .batch ids response.body = .error e ∧ e = .invalidResponse message ∧
          k'.cooldown.failures.get? key.secret = none := by
  by_cases empty : ids = []
  · subst empty
    obtain ⟨rfl, rfl, -, -⟩ := elapses_pure elapses
    exact .inl ⟨rfl, rfl, rfl⟩
  obtain ⟨_, ended, session, carried, rfl⟩ := session_of_fetch empty elapses
  obtain ⟨begun, requests, le, rfl, rotates⟩ := KeyRing.rotates_of_session session
  obtain ⟨passed, left, offers, turned, benched, freed⟩ := rotates.turned
  have window : (k.available begun c.locator.isFine).2.cooldown.window = k.cooldown.window :=
    (Cooldown.forgets_sift begun _ k.cooldown).window
  rw [window] at benched
  refine .inr ⟨begun, requests, ended, passed, left, le, carried, offers, turned, ?_, benched, rfl, ?_⟩
  · rintro ⟨key, _⟩ member e rfl
    have logged : (⟨.inr (.inr (.call key)), .error e⟩ :
        Exchanged (KeyRing.sessions Exchange.Response)) ∈ requests.map Spanned.exchanged :=
      turned.mem member
    exact unusable_of_carried carried (List.mem_cons_of_mem _ logged) (turned.lasting _ member e rfl)
  · intro e failed lasting
    rcases cut_error failed with rfl | ⟨response, message, rfl, batch, refused, same⟩
    · refine .inl ⟨?_, fun p member => (benched p member).imp_right fun known => ?_⟩
      · obtain ⟨_, -, ending⟩ := turned.history
        cases ending with
        | exhausted => rfl
        | cancelled => exact absurd rfl lasting
        | gaveUp never => exact absurd never lasting
      · refine known.resolve_right ?_
        rintro ⟨⟨_, ok⟩, -⟩
        cases ok
    · obtain ⟨key, rest, here, unrecorded⟩ := freed response rfl
      exact .inr ⟨key, rest, response, message, here, rfl, batch, refused, same, unrecorded⟩

def onceClient : ApiClient :=
  ⟨"prices",
    ⟨{ path := "/p?ids=\x7b\x7bids_list\x7d\x7d" }, ⟨"/p?ids=\x7b\x7bids_list\x7d\x7d", .batch⟩⟩, .wait,
    { maxRetries := 1 }⟩

def paidAndAnonymous : KeyRing Rat := .ofCredentials [⟨"p", .paid⟩] {}

def refusedFetch : List (Spanned requests) × Except FetchError Payloads × Instant × KeyRing Rat :=
  (onceClient.fetch ["a"]).enact replying [(404, []), (503, [])] 0 paidAndAnonymous

theorem fetch_rotates_refused :
    (onceClient.fetch ["a"]).Elapses (surroundings Rat) 0 paidAndAnonymous refusedFetch.1
      refusedFetch.2.1 refusedFetch.2.2.1 refusedFetch.2.2.2 ∧
    refusedFetch.2.1 = .error (.credentialsExhausted 2 (.retriesExhausted 1 (.status 503 ""))) ∧
    ∃ begun, ∀ key ∈ [⟨"p", .paid⟩, Credential.unkeyed],
      KeyRing.InCooldown (Duration.ofSeconds 60) begun refusedFetch.2.2.1 refusedFetch.2.2.2
        key.secret := by
  have elapses := elapses_enact surroundings_replying (onceClient.fetch ["a"]) [(404, []), (503, [])] 0
    paidAndAnonymous
  have failed : refusedFetch.2.1 =
      .error (.credentialsExhausted 2 (.retriesExhausted 1 (.status 503 ""))) := by decide +kernel
  have usable : ∀ now, (paidAndAnonymous.available now false).1 = [⟨"p", .paid⟩, Credential.unkeyed] :=
    fun _ => rfl
  refine ⟨elapses, failed, ?_⟩
  rcases fetch_rotates elapses with ⟨none, -⟩ |
    ⟨begun, requests, ended, passed, left, -, -, offers, turned, -, -, -, fails⟩
  · cases none
  · rcases fails _ failed (by decide) with ⟨rfl, benched⟩ | ⟨_, _, _, _, -, -, -, -, uncut, -⟩
    · refine ⟨begun, fun key member => ?_⟩
      rw [← usable begun] at member
      have tried : key ∈ passed.map Prod.fst ++ [] := offers ▸ member
      rw [List.append_nil] at tried
      obtain ⟨p, among, rfl⟩ := List.mem_map.mp tried
      refine (benched p among).resolve_left fun skipped => ?_
      cases turned.skips p among skipped
    · cases uncut

def uncutReplies : List (Nat × Bytes) :=
  [(200, Text.Utf8.encode "oops".toList), (200, Text.Utf8.encode "\x7b\"a\":1\x7d".toList)]

def uncutFetch : List (Spanned requests) × Except FetchError Payloads × Instant × KeyRing Rat :=
  (onceClient.fetch ["a"]).enact replying uncutReplies 0 paidAndAnonymous

/-- The anonymous credential has no turn after a body that cannot be cut, and the paid one is not benched. -/
theorem not_rotates_uncut :
    (onceClient.fetch ["a"]).Elapses (surroundings Rat) 0 paidAndAnonymous uncutFetch.1
      uncutFetch.2.1 uncutFetch.2.2.1 uncutFetch.2.2.2 ∧
    (paidAndAnonymous.available 0 false).1 = [⟨"p", .paid⟩, Credential.unkeyed] ∧
    uncutFetch.2.1 = .error (.invalidResponse "expected a JSON object or array") ∧
    (FetchError.invalidResponse "expected a JSON object or array").retryClass = .nextCredential ∧
    (turns (uncutFetch.1.map Spanned.exchanged)).map Turn.kind = [.paid] ∧
    (uncutFetch.2.2.2.available uncutFetch.2.2.1 false).1 = [⟨"p", .paid⟩, Credential.unkeyed] := by
  have elapses := elapses_enact surroundings_replying (onceClient.fetch ["a"]) uncutReplies 0
    paidAndAnonymous
  exact ⟨elapses, by decide +kernel, by decide +kernel, rfl, by decide +kernel, by decide +kernel⟩

end ApiClient

end MarketFeed
