import MarketFeed.ApiClient
import MarketFeed.Proofs.Exchange.Outcomes
/-!
Failures for which the path of an endpoint is to blame. A fetch of identifiers that have an address with
every credential fails for other reasons only, and no such failure stands within its failure.
-/

set_option autoImplicit false
set_option relaxedAutoImplicit false

namespace MarketFeed

open Program

namespace FetchError

/-- Whether the path is to blame for a failure, or for one within. -/
def blamesPath : FetchError → Bool
  | .invalidTemplate _ _ => true
  | .retriesExhausted _ e | .credentialsExhausted _ e | .chunkFailed _ _ _ e => e.blamesPath
  | _ => false

/-- A result that is not a failure for which the path is to blame. -/
def Clears {α : Type} (r : Except FetchError α) : Prop := ∀ e, r = .error e → e.blamesPath = false

theorem clears_error {α : Type} {e : FetchError} (clear : e.blamesPath = false) :
    Clears (α := α) (.error e) := by
  rintro _ ⟨⟩
  exact clear

theorem clears_ok {α : Type} (a : α) : Clears (.ok a) := nofun

end FetchError

open FetchError

/-! ### One exchange -/

theorem Exchange.Broken.clear {e : FetchError} (broken : Exchange.Broken e) : e.blamesPath = false := by
  rcases broken with final | ⟨attempts, last, rfl, passing⟩
  · cases e with
    | invalidTemplate | retriesExhausted | credentialsExhausted | chunkFailed => exact final.elim
    | _ => rfl
  · cases last with
    | transport | status => rfl
    | _ => exact passing.elim

theorem Exchange.clears_perform {h : List (Exchanged network)} (config : RetryConfig) (label url : String) :
    Obeys (fun _ _ => True) (fun _ r => Clears r) h (perform config label url) :=
  (broken_perform config label url).mono fun _ _ broken e failed => (broken e failed).clear

/-! ### A rotation -/

namespace KeyRing

variable {α : Type} {h : List (Exchanged (rotation α))}

def ClearUses (h : List (Exchanged (rotation α))) : Prop :=
  ∀ key r, (⟨.inr (.call key), r⟩ : Exchanged (rotation α)) ∈ h → Clears (α := α) r

private theorem clears_rotateFrom (policy : RateLimit.Policy) (keys : List Credential)
    (journal : Journal) {last : Option FetchError}
    (clearSoFar : ClearUses h → (last.getD noneLeft).blamesPath = false) :
    Obeys (fun _ _ => True) (fun k r => ClearUses k → Clears (α := α) r) h
      (rotateFrom policy keys journal last) := by
  induction keys generalizing h journal last with
  | nil =>
    refine obeys_pure fun uses => clears_error ?_
    cases last with
    | none => rfl
    | some e => exact clearSoFar uses
  | cons key keys ih =>
    have still : ∀ {k}, h <+: k → ClearUses k → (last.getD noneLeft).blamesPath = false :=
      fun kept uses => clearSoFar fun key r member => uses key r (kept.subset member)
    refine (obeys_any isCancelled).extends.bind fun k isOff ⟨kept, _⟩ => ?_
    cases isOff with
    | true => exact obeys_pure fun _ => clears_error rfl
    | false =>
      refine (obeys_any (grant policy key.kind)).extends.bind fun k admission ⟨more, _⟩ => ?_
      cases admission with
      | cancelled => exact obeys_pure fun _ => clears_error rfl
      | skipped => exact ih _ (still (kept.trans more))
      | granted =>
        refine (obeys_asked (S := rotation α) (.inr (.call key)) trivial).bind ?_
        rintro k used rfl
        cases used with
        | ok value => exact (obeys_any (clear key.secret)).bind fun _ _ _ =>
            obeys_pure fun _ => clears_ok value
        | error e =>
          have blamed : ∀ {k'}, k ++ [⟨.inr (.call key), .error e⟩] <+: k' → ClearUses k' →
              e.blamesPath = false := by
            intro k' kept uses
            exact uses key (.error e) (kept.subset (by simp)) e rfl
          refine obeys_ite (fun _ => obeys_pure fun uses => clears_error (blamed List.prefix_rfl uses))
            fun _ => ?_
          exact (obeys_any (blame key.secret)).extends.bind fun k' _ ⟨kept, _⟩ => ih _ (blamed kept)

theorem clears_rotate (policy : RateLimit.Policy) (keys : List Credential) :
    Obeys (fun _ _ => True) (fun k r => ClearUses k → Clears (α := α) r) h (rotate policy keys) := by
  rw [rotate]
  exact obeys_ite (fun _ => obeys_pure fun _ => clears_error rfl)
    fun _ => clears_rotateFrom policy keys .empty fun _ => rfl

end KeyRing

/-! ### One fetch -/

namespace Payloads

theorem clears_split (mode : Endpoint.Mode) (ids : List String) (body : Bytes) :
    Clears (split mode ids body) := by
  cases mode with
  | single => cases ids <;> exact clears_ok _
  | batch =>
    rw [split]
    split
    · exact clears_error rfl
    · exact clears_ok _

end Payloads

namespace ApiClient

variable {h : List (Exchanged requests)} {c : ApiClient} {ids : List String}

private theorem clears_useCredential {key : Credential} {url : String}
    (located : c.locator.url ids (some key) = .ok url) :
    Obeys (fun _ _ => True) (fun _ r => Clears r) h (c.useCredential ids key) := by
  rw [useCredential, located]
  have among : Obeys (fun _ _ => True) (fun _ r => Clears r) []
      ((Exchange.perform c.retry (c.label ids ++ " via " ++ key.masked) url).inSecond
        (S := KeyRing.controls)) :=
    (Exchange.clears_perform (h := []) _ _ _).inSecond (fun _ _ _ => trivial) fun _ _ clear => clear
  exact among.inSecond (fun _ _ _ => trivial) fun _ _ clear => clear

theorem clears_fetch (located : ∀ key, ∃ url, c.locator.url ids (some key) = .ok url) :
    Obeys (fun _ _ => True) (fun _ r => Clears r) h (c.fetch ids) := by
  rw [fetch]
  refine obeys_ite (fun _ => obeys_pure (clears_ok ∅)) fun _ => ?_
  refine (obeys_any (available c.locator.isFine)).bind fun k keys _ => ?_
  have carried : ∀ (uses : List (Exchanged (KeyRing.rotation Exchange.Response))) k op,
      KeyRing.ClearUses uses → True → Obeys (fun _ _ => True)
        (fun _ r => KeyRing.ClearUses (uses ++ [⟨op, r⟩])) k (c.carryOut ids op) := by
    intro uses k op clear _
    cases op with
    | inl question =>
      refine (obeys_any _).mono fun _ r _ key r' member => ?_
      rcases List.mem_append.mp member with old | new
      · exact clear key r' old
      · cases List.mem_singleton.mp new
    | inr use =>
      obtain ⟨key⟩ := use
      obtain ⟨url, located⟩ := located key
      refine (clears_useCredential located).mono fun _ r here key r' member => ?_
      rcases List.mem_append.mp member with old | new
      · exact clear key r' old
      · cases List.mem_singleton.mp new
        exact here
  have rotated : Obeys (fun _ _ => True) (fun _ r => Clears r) k
      ((KeyRing.rotate c.policy keys).interpret (c.carryOut ids)) :=
    Obeys.interpret carried (fun _ _ _ clear kept => kept clear)
      (KeyRing.clears_rotate c.policy keys (h := [])) nofun
  refine rotated.bind fun k r clear => ?_
  cases r with
  | error e => exact obeys_pure (clears_error (clear e rfl))
  | ok response => exact obeys_pure (Payloads.clears_split c.mode ids response.body)

end ApiClient

end MarketFeed
