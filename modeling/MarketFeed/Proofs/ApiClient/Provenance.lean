import MarketFeed.ApiClient
import MarketFeed.Proofs.Program.Histories
import MarketFeed.Table.Lemmas
/-!
Where the payloads of a fetch come from. Whatever attempts and credentials it took, the payloads were
cut out of the body of one answer of success to one request for the identifiers asked for.
-/

set_option autoImplicit false
set_option relaxedAutoImplicit false

namespace MarketFeed

open Program

/-! ### One exchange -/

namespace Exchange

/-- The address was asked for, the answer was a success, and this was its body; `embed` places the
exchanges of the network among others. -/
def Heard {T : Signature} (embed : Exchanged network → Exchanged T) (url : String) (body : Bytes)
    (h : List (Exchanged T)) : Prop :=
  ∃ status, isSuccess status = true ∧
    [embed ⟨.send url, .answered status⟩, embed ⟨.receive, .body body⟩] <:+: h

theorem Heard.extend {T : Signature} {embed : Exchanged network → Exchanged T} {url : String}
    {body : Bytes} {h k : List (Exchanged T)} (heard : Heard embed url body h) (kept : h <+: k) :
    Heard embed url body k := by
  obtain ⟨status, success, pair⟩ := heard
  exact ⟨status, success, pair.trans kept.isInfix⟩

theorem Heard.inSecond {S T : Signature} {embed : Exchanged network → Exchanged T} {url : String}
    {body : Bytes} {h : List (Exchanged T)} (heard : Heard embed url body h)
    (before : List (Exchanged (S.sum T))) :
    Heard (fun e => (embed e).inSecond) url body (before ++ h.map .inSecond) := by
  obtain ⟨status, success, pair⟩ := heard
  exact ⟨status, success, (pair.map Exchanged.inSecond).trans (List.suffix_append _ _).isInfix⟩

variable {h : List (Exchanged network)}

private theorem obeys_takeBody (label url : String) (attempt : Nat) {status : Nat}
    (success : isSuccess status = true) :
    Obeys (fun _ _ => True) (fun k r => ∀ response, r = .succeeded response →
        Heard id url response.body k)
      (h ++ [⟨.send url, .answered status⟩]) (takeBody label attempt status) := by
  refine (obeys_asked (S := network) .receive trivial).bind ?_
  rintro k received rfl
  cases received with
  | cancelled => exact obeys_pure nofun
  | failed message => exact (obeys_any (report _)).bind fun _ _ _ => obeys_pure nofun
  | body bytes =>
    have heard : Heard id url bytes
        (h ++ [⟨.send url, .answered status⟩] ++ [⟨.receive, .body bytes⟩]) := by
      refine ⟨status, success, h, [], ?_⟩
      rw [List.append_nil, List.append_assoc]
      rfl
    refine (obeys_asked (S := network) (.report _) trivial).bind ?_
    rintro k u rfl
    refine obeys_pure fun response same => ?_
    cases same
    exact heard.extend (List.prefix_append _ _)

private theorem refuse_ne (status : Nat) (body : Bytes) (response : Response) :
    refuse status body ≠ .succeeded response := by
  rw [refuse]
  split <;> nofun

private theorem obeys_attemptOnce (label url : String) (attempt : Nat) :
    Obeys (fun _ _ => True) (fun k r => ∀ response, r = .succeeded response →
        Heard id url response.body k)
      h (attemptOnce label url attempt) := by
  refine (obeys_asked (S := network) (.send url) trivial).bind ?_
  rintro k sent rfl
  cases sent with
  | cancelled => exact obeys_pure nofun
  | failed message timeout => exact (obeys_any (report _)).bind fun _ _ _ => obeys_pure nofun
  | answered status =>
    refine obeys_ite (fun success => obeys_takeBody label url attempt success) fun _ => ?_
    refine (obeys_any (report _)).bind fun _ _ _ => ?_
    refine (obeys_any receive).bind fun _ received _ => ?_
    cases received with
    | cancelled => exact obeys_pure nofun
    | body bytes => exact obeys_pure fun response same => absurd same (refuse_ne _ _ response)
    | failed message => exact obeys_pure fun response same => absurd same (refuse_ne _ _ response)

private theorem obeys_attemptsFrom (config : RetryConfig) (label url : String)
    (left attempt : Nat) (last : Option FetchError) :
    Obeys (fun _ _ => True) (fun k r => ∀ response, r = .ok response → Heard id url response.body k)
      h (attemptsFrom config label url left attempt last) := by
  induction left generalizing h attempt last with
  | zero => exact obeys_pure nofun
  | succ left ih =>
    refine (obeys_any (prepare config label attempt)).bind fun k signal _ => ?_
    cases signal with
    | cancelled => exact obeys_pure nofun
    | elapsed =>
      refine (obeys_attemptOnce label url attempt).bind fun k ended heard => ?_
      cases ended with
      | succeeded response => exact obeys_pure fun _ same => heard _ (by cases same; rfl)
      | ended e => exact obeys_pure nofun
      | again e => exact ih (attempt + 1) (some e)

theorem obeys_perform (config : RetryConfig) (label url : String) :
    Obeys (fun _ _ => True) (fun k r => ∀ response, r = .ok response → Heard id url response.body k)
      h (perform config label url) :=
  obeys_attemptsFrom config label url config.attempts 0 none

end Exchange

/-! ### A rotation -/

namespace KeyRing

variable {α : Type} {h : List (Exchanged (rotation α))}

theorem obeys_rotateFrom (policy : RateLimit.Policy) (keys : List Credential) (journal : Journal)
    (last : Option FetchError) :
    Obeys (fun _ _ => True) (fun k r => ∀ value, r = .ok value →
        ∃ key, (⟨.inr (.call key), .ok value⟩ : Exchanged (rotation α)) ∈ k)
      h (rotateFrom policy keys journal last) := by
  induction keys generalizing h journal last with
  | nil => exact obeys_pure nofun
  | cons key keys ih =>
    refine (obeys_any isCancelled).bind fun k isOff _ => ?_
    cases isOff with
    | true => exact obeys_pure nofun
    | false =>
      refine (obeys_any (grant policy key.kind)).bind fun k admission _ => ?_
      cases admission with
      | cancelled => exact obeys_pure nofun
      | skipped => exact ih _ last
      | granted =>
        refine (obeys_asked (S := rotation α) (.inr (.call key)) trivial).bind ?_
        rintro k used rfl
        cases used with
        | ok value =>
          refine (obeys_asked (S := rotation α) (.inl (.markSucceeded key.secret)) trivial).bind ?_
          rintro k u rfl
          refine obeys_pure fun _ same => ?_
          cases same
          refine ⟨key, ?_⟩
          exact List.mem_append_left _ (List.mem_append_right _ List.mem_cons_self)
        | error e =>
          refine obeys_ite (fun _ => obeys_pure nofun) fun _ => ?_
          exact (obeys_any (blame key.secret)).bind fun k _ _ => ih _ (some e)

theorem obeys_rotate (policy : RateLimit.Policy) (keys : List Credential) :
    Obeys (fun _ _ => True) (fun k r => ∀ value, r = .ok value →
        ∃ key, (⟨.inr (.call key), .ok value⟩ : Exchanged (rotation α)) ∈ k)
      h (rotate policy keys) := by
  rw [rotate]
  exact obeys_ite (fun _ => obeys_pure nofun) fun _ => obeys_rotateFrom policy keys .empty none

end KeyRing

/-! ### One fetch -/

namespace Payloads

theorem mem_of_split {mode : Endpoint.Mode} {ids : List String} {body : Bytes} {chunk : Payloads}
    (cut : split mode ids body = .ok chunk) {id : String} {v : Bytes}
    (payload : chunk.get? id = some v) : id ∈ ids := by
  cases mode with
  | single =>
    cases ids with
    | nil =>
      cases cut
      cases payload
    | cons first rest =>
      cases cut
      rw [Table.get?_insert] at payload
      split at payload
      · rename_i same
        rw [same]
        exact List.mem_cons_self
      · cases payload
  | batch =>
    rw [split] at cut
    split at cut
    · cases cut
    · cases cut
      rw [Table.get?_filter, Option.filter_eq_some_iff] at payload
      exact List.contains_iff_mem.mp payload.2

end Payloads

namespace ApiClient

/-- The payloads of a chunk were cut out of the body of an answer of success to a request for its
identifiers with one of the credentials. -/
def CutFrom (c : ApiClient) {T : Signature} (embed : Exchanged Exchange.network → Exchanged T)
    (h : List (Exchanged T)) (ids : List String) (chunk : Payloads) : Prop :=
  ∃ key url body, c.locator.url ids (some key) = .ok url ∧ Exchange.Heard embed url body h ∧
    Payloads.split c.mode ids body = .ok chunk

def overNetwork (e : Exchanged Exchange.network) : Exchanged requests := e.inSecond.inSecond

private def Used (c : ApiClient) (ids : List String) (h : List (Exchanged requests))
    (key : Credential) (response : Exchange.Response) : Prop :=
  ∃ url, c.locator.url ids (some key) = .ok url ∧
    Exchange.Heard overNetwork url response.body h

variable {h : List (Exchanged requests)}

private theorem obeys_useCredential (c : ApiClient) (ids : List String) (key : Credential) :
    Obeys (fun _ _ => True)
      (fun k r => ∀ response, r = .ok response → c.Used ids k key response)
      h (c.useCredential ids key) := by
  rw [useCredential]
  split
  · exact obeys_pure nofun
  · rename_i url located
    have performed := Exchange.obeys_perform (h := [])
      c.retry (c.label ids ++ " via " ++ key.masked) url
    have among : Obeys (fun _ _ => True)
        (fun k r => ∀ response, r = .ok response →
          Exchange.Heard (fun e => e.inSecond) url response.body k) []
        ((Exchange.perform c.retry (c.label ids ++ " via " ++ key.masked) url).inSecond
          (S := KeyRing.controls)) :=
      performed.inSecond (fun _ _ _ => trivial)
        fun k r heard response ok => (heard response ok).inSecond []
    exact among.inSecond (fun _ _ _ => trivial)
      fun k r heard response ok => ⟨url, located, (heard response ok).inSecond h⟩

private def Known (c : ApiClient) (ids : List String)
    (uses : List (Exchanged (KeyRing.rotation Exchange.Response)))
    (h : List (Exchanged requests)) : Prop :=
  ∀ key response,
    (⟨.inr (.call key), .ok response⟩ : Exchanged (KeyRing.rotation Exchange.Response)) ∈ uses →
      c.Used ids h key response

private theorem obeys_carryOut (c : ApiClient) (ids : List String)
    {uses : List (Exchanged (KeyRing.rotation Exchange.Response))} (known : c.Known ids uses h)
    (op : (KeyRing.rotation Exchange.Response).Op) :
    Obeys (fun _ _ => True) (fun k r => c.Known ids (uses ++ [⟨op, r⟩]) k) h
      (c.carryOut ids op) := by
  have still : ∀ {k}, h <+: k → c.Known ids uses k := by
    intro k kept key response member
    obtain ⟨url, located, heard⟩ := known key response member
    exact ⟨url, located, heard.extend kept⟩
  cases op with
  | inl question =>
    refine (obeys_asked (S := requests) (.inr (.inl question)) trivial).mono ?_
    rintro k r rfl key response member
    rcases List.mem_append.mp member with old | new
    · exact still (List.prefix_append _ _) key response old
    · cases List.mem_singleton.mp new
  | inr use =>
    obtain ⟨key⟩ := use
    refine (c.obeys_useCredential ids key).extends.mono ?_
    rintro k r ⟨kept, used⟩ key' response member
    rcases List.mem_append.mp member with old | new
    · exact still kept key' response old
    · cases List.mem_singleton.mp new
      exact used response rfl

/-- The payloads of a fetch are none, or they were cut out of one answer of success. -/
theorem obeys_fetch (c : ApiClient) (ids : List String) :
    Obeys (fun _ _ => True) (fun k r => ∀ chunk, r = .ok chunk →
        chunk = ∅ ∨ c.CutFrom overNetwork k ids chunk)
      h (c.fetch ids) := by
  rw [fetch]
  refine obeys_ite (fun _ => obeys_pure ?_) fun _ => ?_
  · intro chunk same
    cases same
    exact .inl rfl
  · refine (obeys_any (available c.locator.isFine)).bind fun k keys _ => ?_
    have nothing : c.Known ids [] k := fun _ _ member => nomatch member
    have rotated : Obeys (fun _ _ => True)
        (fun k r => ∀ response, r = .ok response → ∃ key, c.Used ids k key response) k
        ((KeyRing.rotate c.policy keys).interpret (c.carryOut ids)) := by
      have carried : ∀ uses k op, c.Known ids uses k → True → Obeys (fun _ _ => True)
          (fun k' r => c.Known ids (uses ++ [⟨op, r⟩]) k') k (c.carryOut ids op) :=
        fun uses k op known _ => c.obeys_carryOut ids known op
      refine Obeys.interpret carried ?_ (KeyRing.obeys_rotate c.policy keys) nothing
      intro uses k r known value response ok
      obtain ⟨key, member⟩ := value response ok
      exact ⟨key, known key response member⟩
    refine rotated.bind fun k r used => ?_
    cases r with
    | error e => exact obeys_pure nofun
    | ok response =>
      obtain ⟨key, url, located, heard⟩ := used response rfl
      exact obeys_pure fun chunk cut => .inr ⟨key, url, response.body, located, heard, cut⟩

end ApiClient

end MarketFeed
