import MarketFeed.Exchange
import MarketFeed.Proofs.Program.Histories
/-!
What may come of an exchange, whatever it is answered and also if it is cancelled: which addresses it asks
for, and how it fails.
-/

set_option autoImplicit false
set_option relaxedAutoImplicit false

namespace MarketFeed.Exchange

open Program

variable {h : List (Exchanged network)}

/-! ### Addresses asked for -/

def address? : Exchanged network → Option String
  | ⟨.send url, _⟩ => some url
  | _ => none

def addresses (h : List (Exchanged network)) : List String := h.filterMap address?

private def Silent {α : Type} (h : List (Exchanged network)) (p : Program network α) : Prop :=
  Obeys (fun _ _ => True) (fun k _ => addresses k = addresses h) h p

private theorem silent_call {op : network.Op} (silent : ∀ r, address? ⟨op, r⟩ = none) :
    Silent h (call op) := by
  refine obeys_call trivial fun r => ?_
  simp [addresses, silent r]

private theorem Silent.bind {α β : Type} {p : Program network α} {f : α → Program network β}
    (first : Silent h p) (second : ∀ k a, addresses k = addresses h → Silent k (f a)) :
    Silent h (p.bind f) := by
  refine Obeys.bind first fun k a same => ?_
  refine (second k a same).mono fun l b later => ?_
  rw [later, same]

private theorem silent_pure {α : Type} (a : α) : Silent h (pure a) := obeys_pure rfl

private theorem silent_prepare (config : RetryConfig) (label : String) (attempt : Nat) :
    Silent h (prepare config label attempt) := by
  unfold prepare
  refine obeys_ite (fun _ => silent_pure _) fun _ => ?_
  refine (silent_call fun _ => rfl).bind fun _ _ _ => ?_
  exact (silent_call fun _ => rfl).bind fun _ _ _ => silent_call fun _ => rfl

private theorem silent_takeBody (label : String) (attempt status : Nat) :
    Silent h (takeBody label attempt status) := by
  refine (silent_call fun _ => rfl).bind fun _ received _ => ?_
  cases received with
  | cancelled => exact silent_pure _
  | body bytes => exact (silent_call fun _ => rfl).bind fun _ _ _ => silent_pure _
  | failed message => exact (silent_call fun _ => rfl).bind fun _ _ _ => silent_pure _

private theorem silent_takeRefusal (label : String) (attempt status : Nat) :
    Silent h (takeRefusal label attempt status) := by
  refine (silent_call fun _ => rfl).bind fun _ _ _ => ?_
  refine (silent_call fun _ => rfl).bind fun _ received _ => ?_
  cases received <;> exact silent_pure _

private theorem addresses_attemptOnce (label url : String) (attempt : Nat) :
    Obeys (fun _ _ => True) (fun k _ => addresses k = addresses h ++ [url]) h
      (attemptOnce label url attempt) := by
  refine (obeys_asked (S := network) (.send url) trivial).bind ?_
  rintro _ sent rfl
  have asked : addresses (h ++ [⟨.send url, sent⟩]) = addresses h ++ [url] := by
    simp [addresses, address?]
  rw [← asked]
  cases sent with
  | cancelled => exact silent_pure _
  | failed message timeout => exact (silent_call fun _ => rfl).bind fun _ _ _ => silent_pure _
  | answered status =>
    exact obeys_ite (fun _ => silent_takeBody label attempt status)
      fun _ => silent_takeRefusal label attempt status

private theorem addresses_attemptsFrom (config : RetryConfig) (label url : String)
    (left attempt : Nat) (last : Option FetchError) :
    Obeys (fun _ _ => True)
      (fun k _ => ∃ m ≤ left, addresses k = addresses h ++ List.replicate m url) h
      (attemptsFrom config label url left attempt last) := by
  induction left generalizing h attempt last with
  | zero => exact obeys_pure ⟨0, Nat.le_refl 0, by simp⟩
  | succ left ih =>
    refine Obeys.bind (silent_prepare config label attempt) fun k signal same => ?_
    cases signal with
    | cancelled => exact obeys_pure ⟨0, Nat.zero_le _, by simp [same]⟩
    | elapsed =>
      refine (addresses_attemptOnce label url attempt).bind fun l ended sent => ?_
      rw [same] at sent
      have once : ∃ m ≤ left + 1, addresses l = addresses h ++ List.replicate m url :=
        ⟨1, Nat.le_add_left 1 left, sent⟩
      cases ended with
      | succeeded response => exact obeys_pure once
      | ended e => exact obeys_pure once
      | again e =>
        refine (ih (attempt + 1) (some e)).mono ?_
        rintro k _ ⟨m, most, more⟩
        refine ⟨m + 1, Nat.succ_le_succ most, ?_⟩
        rw [more, sent, List.append_assoc]
        rfl

theorem addresses_perform (config : RetryConfig) (label url : String) :
    Obeys (fun _ _ => True)
      (fun k _ => ∃ m ≤ config.attempts, addresses k = addresses h ++ List.replicate m url) h
      (perform config label url) :=
  addresses_attemptsFrom config label url config.attempts 0 none

/-! ### Failures -/

/-- Failures of an exchange that another credential may mend: a status not worth another attempt, a body
that cannot be read, or no attempt left. -/
def Unusable : FetchError → Prop
  | .status code _ => FetchError.isRetryableStatus code = false
  | .bodyRead _ | .retriesExhausted _ _ => True
  | _ => False

/-- Failures with which an attempt ends an exchange: a cancellation, a status that is not worth another
attempt, or a body that cannot be read. -/
def Final : FetchError → Prop
  | .status code _ => FetchError.isRetryableStatus code = false
  | .bodyRead _ | .cancelled => True
  | _ => False

/-- Failures after which there may be another attempt: no answer, or a status that is worth one. -/
def Passing : FetchError → Prop
  | .status code _ => FetchError.isRetryableStatus code = true
  | .transport _ _ => True
  | _ => False

def Attempted.Ends : Attempted → Prop
  | .succeeded _ => True
  | .ended e => Final e
  | .again e => Passing e

/-- How an exchange fails: as one of its attempts ends it, or with the last failure when no attempt is
left. -/
def Broken (e : FetchError) : Prop :=
  Final e ∨ ∃ attempts last, e = .retriesExhausted attempts last ∧ Passing last

theorem Broken.unusable {e : FetchError} (broken : Broken e) : Unusable e ∨ e = .cancelled := by
  rcases broken with final | ⟨attempts, last, rfl, -⟩
  · cases e with
    | cancelled => exact .inr rfl
    | status | bodyRead => exact .inl final
    | _ => exact final.elim
  · exact .inl trivial

private theorem ends_takeBody (label : String) (attempt status : Nat) :
    Obeys (fun _ _ => True) (fun _ r => r.Ends) h (takeBody label attempt status) := by
  refine (obeys_any receive).bind fun k received _ => ?_
  cases received with
  | cancelled => exact obeys_pure trivial
  | body bytes => exact (obeys_any (report _)).bind fun _ _ _ => obeys_pure trivial
  | failed message => exact (obeys_any (report _)).bind fun _ _ _ => obeys_pure trivial

private theorem ends_refuse (status : Nat) (body : Bytes) : (refuse status body).Ends := by
  rw [refuse]
  split
  next worth => exact worth
  next terminal => exact Bool.eq_false_iff.mpr terminal

private theorem ends_takeRefusal (label : String) (attempt status : Nat) :
    Obeys (fun _ _ => True) (fun _ r => r.Ends) h (takeRefusal label attempt status) := by
  refine (obeys_any (report _)).bind fun _ _ _ => (obeys_any receive).bind fun k received _ => ?_
  cases received with
  | cancelled => exact obeys_pure trivial
  | body bytes => exact obeys_pure (ends_refuse status bytes)
  | failed message => exact obeys_pure (ends_refuse status [])

private theorem ends_attemptOnce (label url : String) (attempt : Nat) :
    Obeys (fun _ _ => True) (fun _ r => r.Ends) h (attemptOnce label url attempt) := by
  refine (obeys_any (send url)).bind fun k sent _ => ?_
  cases sent with
  | cancelled => exact obeys_pure trivial
  | failed message timeout => exact (obeys_any (report _)).bind fun _ _ _ => obeys_pure trivial
  | answered status =>
    exact obeys_ite (fun _ => ends_takeBody label attempt status)
      fun _ => ends_takeRefusal label attempt status

private theorem broken_attemptsFrom (config : RetryConfig) (label url : String) (left attempt : Nat)
    {last : Option FetchError} (passing : Passing (last.getD noAttempt)) :
    Obeys (fun _ _ => True) (fun _ r => ∀ e, r = .error e → Broken e) h
      (attemptsFrom config label url left attempt last) := by
  induction left generalizing h attempt last with
  | zero =>
    refine obeys_pure ?_
    rintro _ ⟨⟩
    exact .inr ⟨_, _, rfl, passing⟩
  | succ left ih =>
    refine (obeys_any (prepare config label attempt)).bind fun k signal _ => ?_
    cases signal with
    | cancelled =>
      refine obeys_pure ?_
      rintro _ ⟨⟩
      exact .inl trivial
    | elapsed =>
      refine (ends_attemptOnce label url attempt).bind fun k ended ends => ?_
      cases ended with
      | succeeded response => exact obeys_pure nofun
      | ended e =>
        refine obeys_pure ?_
        rintro _ ⟨⟩
        exact .inl ends
      | again e => exact ih (attempt + 1) ends

theorem broken_perform (config : RetryConfig) (label url : String) :
    Obeys (fun _ _ => True) (fun _ r => ∀ e, r = .error e → Broken e) h (perform config label url) :=
  broken_attemptsFrom config label url config.attempts 0 trivial

theorem fails_perform (config : RetryConfig) (label url : String) :
    Obeys (fun _ _ => True) (fun _ r => ∀ e, r = .error e → Unusable e ∨ e = .cancelled) h
      (perform config label url) :=
  (broken_perform config label url).mono fun _ _ broken e failed => (broken e failed).unusable

end MarketFeed.Exchange
