import MarketFeed.Proofs.Simulation.Cancelling
import MarketFeed.Simulation.Calling
import MarketFeed.Simulation.Chunking
/-!
Cancelling a fetch of many chunks. Four loops lie within each other: chunks, credentials, attempts,
and the steps of one attempt. Each of them may wait, and each passes on what the one within ended
with; a cancellation goes through all of them as it is and leaves nothing behind.
-/

set_option autoImplicit false
set_option relaxedAutoImplicit false

namespace MarketFeed

open Program

/-! ### One exchange -/

namespace Exchange

def waits : Waits network
  | .pause _ => some Signal.cancelled
  | .send _ => some Sent.cancelled
  | .receive => some Received.cancelled
  | .report _ | .draw _ => none

/-- What an attempt ends with when it is cancelled. -/
def Attempted.IsCancelled (a : Attempted) : Prop := a = .ended .cancelled

private theorem heeds_report (event : Event) : (report event).Heeds waits fun _ => False :=
  heeds_step (S := network) (.report event) rfl

private theorem heeds_receive : receive.Heeds waits (· = .cancelled) :=
  heeds_wait (S := network) .receive rfl

private theorem heeds_prepare (config : RetryConfig) (label : String) (attempt : Nat) :
    (prepare config label attempt).Heeds waits (· = .cancelled) := by
  rw [prepare]
  split
  · exact heeds_pure _
  · refine (heeds_report _).andThen fun _ => ?_
    have drawn : (draw (Backoff.jitterBound config.baseBackoff attempt)).Heeds waits
        fun _ => False := heeds_step (S := network) (.draw _) rfl
    refine drawn.andThen fun d => ?_
    exact heeds_wait (S := network) (.pause _) rfl

private theorem heeds_takeBody (label : String) (attempt status : Nat) :
    (takeBody label attempt status).Heeds waits Attempted.IsCancelled := by
  refine heeds_receive.bind (fun r stopped => ⟨.ended .cancelled, by rw [stopped]; rfl, rfl⟩) ?_
  intro r
  cases r with
  | cancelled => exact heeds_pure _
  | body bytes => exact (heeds_report _).andThen fun _ => heeds_pure _
  | failed message => exact (heeds_report _).andThen fun _ => heeds_pure _

private theorem heeds_takeRefusal (label : String) (attempt status : Nat) :
    (takeRefusal label attempt status).Heeds waits Attempted.IsCancelled := by
  refine (heeds_report _).andThen fun _ => ?_
  refine heeds_receive.bind (fun r stopped => ⟨.ended .cancelled, by rw [stopped]; rfl, rfl⟩) ?_
  intro r
  cases r <;> exact heeds_pure _

private theorem heeds_attemptOnce (label url : String) (attempt : Nat) :
    (attemptOnce label url attempt).Heeds waits Attempted.IsCancelled := by
  have sends : (send url).Heeds waits (· = .cancelled) :=
    heeds_wait (S := network) (.send url) rfl
  refine sends.bind (fun r stopped => ⟨.ended .cancelled, by rw [stopped]; rfl, rfl⟩) ?_
  intro r
  cases r with
  | cancelled => exact heeds_pure _
  | failed message timeout =>
    exact (heeds_report _).andThen fun _ => heeds_pure _
  | answered status =>
    show (if isSuccess status then takeBody label attempt status
      else takeRefusal label attempt status).Heeds waits Attempted.IsCancelled
    split
    · exact heeds_takeBody label attempt status
    · exact heeds_takeRefusal label attempt status

private theorem heeds_attemptsFrom (config : RetryConfig) (label url : String)
    (left attempt : Nat) (last : Option FetchError) :
    (attemptsFrom config label url left attempt last).Heeds waits (· = .error .cancelled) := by
  induction left generalizing attempt last with
  | zero => exact heeds_pure _
  | succ left ih =>
    refine (heeds_prepare config label attempt).bind
      (fun r stopped => ⟨.error .cancelled, by rw [stopped]; rfl, rfl⟩) fun r => ?_
    cases r with
    | cancelled => exact heeds_pure _
    | elapsed =>
      refine (heeds_attemptOnce label url attempt).bind
        (fun r stopped => ⟨.error .cancelled, by rw [stopped]; rfl, rfl⟩) fun r => ?_
      cases r with
      | succeeded r => exact heeds_pure _
      | ended e => exact heeds_pure _
      | again e => exact ih (attempt + 1) (some e)

theorem heeds_perform (config : RetryConfig) (label url : String) :
    (perform config label url).Heeds waits (· = .error .cancelled) :=
  heeds_attemptsFrom config label url config.attempts 0 none

end Exchange

/-! ### A rotation -/

namespace KeyRing

def waits : Waits controls
  | .acquire _ => some Signal.cancelled
  | .isCancelled | .tryAcquire _ | .markFailed _ | .markSucceeded _ => none

/-- A rotation waits for tokens, and each use of a credential is one wait for it. -/
def rotationWaits (α : Type) : Waits (rotation α) :=
  waits.sum fun
    | .call _ => some (.error .cancelled)

variable {α : Type}

private theorem heeds_grant (policy : RateLimit.Policy) (kind : Credential.Kind) :
    (grant (α := α) policy kind).Heeds (rotationWaits α) (· = .cancelled) := by
  cases policy with
  | wait =>
    have acquires : (acquire (α := α) kind).Heeds (rotationWaits α) (· = .cancelled) :=
      heeds_wait (S := rotation α) (.inl (.acquire kind)) rfl
    refine acquires.bind (fun r stopped => ⟨.cancelled, by rw [stopped]; rfl, rfl⟩) fun r => ?_
    cases r <;> exact heeds_pure _
  | skip =>
    have tries : (tryAcquire (α := α) kind).Heeds (rotationWaits α) fun _ => False :=
      heeds_step (S := rotation α) (.inl (.tryAcquire kind)) rfl
    refine tries.andThen fun taken => ?_
    cases taken <;> exact heeds_pure _

private theorem heeds_rotateFrom (policy : RateLimit.Policy) (keys : List Credential)
    (journal : Journal) (last : Option FetchError) :
    (rotateFrom (α := α) policy keys journal last).Heeds (rotationWaits α)
      (· = .error .cancelled) := by
  induction keys generalizing journal last with
  | nil => exact heeds_pure _
  | cons key keys ih =>
    have looks : (isCancelled (α := α)).Heeds (rotationWaits α) fun _ => False :=
      heeds_step (S := rotation α) (.inl .isCancelled) rfl
    refine looks.andThen fun isOff => ?_
    cases isOff with
    | true => exact heeds_pure _
    | false =>
      refine (heeds_grant policy key.kind).bind
        (fun r stopped => ⟨.error .cancelled, by rw [stopped]; rfl, rfl⟩) fun admission => ?_
      cases admission with
      | cancelled => exact heeds_pure _
      | skipped => exact ih _ last
      | granted =>
        have uses_ : (use (α := α) key).Heeds (rotationWaits α) (· = .error .cancelled) :=
          heeds_wait (S := rotation α) (.inr (.call key)) rfl
        -- a cancelled use is a failure for good, so it is passed on and nobody is blamed
        refine uses_.bind (fun r stopped => ⟨.error .cancelled, by rw [stopped]; rfl, rfl⟩) ?_
        intro r
        cases r with
        | ok value =>
          have clears : (clear (α := α) key.secret).Heeds (rotationWaits α) fun _ => False :=
            heeds_step (S := rotation α) (.inl (.markSucceeded key.secret)) rfl
          exact clears.andThen fun _ => heeds_pure _
        | error e =>
          show Heeds (rotationWaits α) (· = .error .cancelled)
            (if e.retryClass = .never then (pure (.error e) : Program (rotation α) _) else
              (blame key.secret).bind fun _ => rotateFrom policy keys
                (journal.record (.failed key.masked e.message)) (some e))
          by_cases never : e.retryClass = .never
          · rw [if_pos never]
            exact heeds_pure _
          · rw [if_neg never]
            have blames : (blame (α := α) key.secret).Heeds (rotationWaits α)
                fun _ => False :=
              heeds_step (S := rotation α) (.inl (.markFailed key.secret)) rfl
            exact blames.andThen fun _ => ih _ (some e)

theorem heeds_rotate (policy : RateLimit.Policy) (keys : List Credential) :
    (rotate (α := α) policy keys).Heeds (rotationWaits α) (· = .error .cancelled) := by
  rw [rotate]
  split
  · exact heeds_pure _
  · exact heeds_rotateFrom policy keys .empty none

end KeyRing

/-! ### One chunk -/

namespace ApiClient

def waits : Waits requests := (Waits.none selections).sum (KeyRing.waits.sum Exchange.waits)

private theorem heeds_carryOut (c : ApiClient) (ids : List String)
    (op : (KeyRing.rotation Exchange.Response).Op) :
    (c.carryOut ids op).Heeds waits
      fun r => KeyRing.rotationWaits Exchange.Response op = some r := by
  cases op with
  | inl question =>
    exact heeds_call (S := requests) (.inr (.inl question)) fun a waited => waited
  | inr use =>
    obtain ⟨key⟩ := use
    show (c.useCredential ids key).Heeds waits _
    rw [useCredential]
    split
    · exact heeds_pure _
    · rename_i url _
      have performed := Exchange.heeds_perform c.retry (c.label ids ++ " via " ++ key.masked) url
      have placed := (performed.inSecond KeyRing.waits).inSecond (Waits.none selections)
      exact placed.mono fun r stopped => congrArg some stopped.symm

theorem heeds_fetch (c : ApiClient) (ids : List String) :
    (c.fetch ids).Heeds waits (· = .error .cancelled) := by
  rw [fetch]
  split
  · exact heeds_pure _
  · have asks : (available c.locator.isFine).Heeds waits fun _ => False :=
      heeds_step (S := requests) (.inl (.available c.locator.isFine)) rfl
    refine asks.andThen fun keys => ?_
    have rotated := (KeyRing.heeds_rotate c.policy keys).interpret (c.heeds_carryOut ids)
    refine rotated.bind (fun r stopped => ⟨.error .cancelled, by rw [stopped]; rfl, rfl⟩) ?_
    intro r
    cases r <;> exact heeds_pure _

end ApiClient

/-! ### All chunks -/

namespace ChunkFetch

open Simulation

def stepWaits : Waits steps
  | .pause _ => some Signal.cancelled
  | .deliver _ => none

private def chunkWaits : Waits requests :=
  stepWaits.sum (T := Client.fetches) fun
    | .chunk _ => some (.error .cancelled)

private theorem heeds_prepare (delay : Duration) (index : Nat) :
    (prepare delay index).Heeds chunkWaits (· = .cancelled) := by
  rw [prepare]
  split
  · exact heeds_pure _
  · exact heeds_wait (S := requests) (.inl (.pause delay)) rfl

private theorem heeds_fetchFrom (delay : Duration) (total index : Nat)
    (chunks : List (List String)) (data : Payloads) :
    (fetchFrom delay total index chunks data).Heeds chunkWaits (· = .error .cancelled) := by
  induction chunks generalizing index data with
  | nil => exact heeds_pure _
  | cons chunk rest ih =>
    refine (heeds_prepare delay index).bind
      (fun r stopped => ⟨.error .cancelled, by rw [stopped]; rfl, rfl⟩) fun r => ?_
    cases r with
    | cancelled => exact heeds_pure _
    | elapsed =>
      have fetches : (fetch chunk).Heeds chunkWaits (· = .error .cancelled) :=
        heeds_wait (S := requests) (.inr (.chunk chunk)) rfl
      -- a cancelled chunk is not blamed on its number
      refine fetches.bind (fun r stopped => ⟨.error .cancelled, by rw [stopped]; rfl, rfl⟩) ?_
      intro r
      cases r with
      | error e => exact heeds_pure _
      | ok arrived =>
        have delivers : (deliver arrived).Heeds chunkWaits fun _ => False :=
          heeds_step (S := requests) (.inl (.deliver arrived)) rfl
        exact delivers.andThen fun _ => ih (index + 1) (data.union arrived)

def through (c : ApiClient) (config : ChunkConfig) (ids : List String) :
    Program (steps.sum ApiClient.requests) (Except FetchError Payloads) :=
  (fetchAll config c.mode ids).interpretSecond (Client.Method.serve c.fetch)

/-- Where a fetch of many chunks waits: for a token of a kind, before a further attempt, while a request is
sent, while a body is read, and between chunks. -/
def waits : Waits (steps.sum ApiClient.requests) := stepWaits.sum ApiClient.waits

theorem heeds_through (c : ApiClient) (config : ChunkConfig) (ids : List String) :
    (through c config ids).Heeds waits (· = .error .cancelled) := by
  have all := heeds_fetchFrom (Duration.ofMillis config.chunkDelayMs.toNat)
    (ChunkPlan.plan ids c.mode config).length 0 (ChunkPlan.plan ids c.mode config) ∅
  refine Heeds.interpretSecond all fun op => ?_
  obtain ⟨chunk⟩ := op
  exact (c.heeds_fetch chunk).mono fun r stopped => congrArg some stopped.symm

def surroundings {R ν : Type} [Quantity R] (network : Handler ν Exchange.network) :
    Handler (List Payloads × (KeyRing R × ν)) (steps.sum ApiClient.requests) :=
  (Handler.onFirst ⟨Chunking.start, Chunking.resume⟩).sum
    (Keys.selections.onFirst.sum (Keys.controls.onFirst.sum network.onSecond)).onSecond

/-- Any number of such fetches beside anything else that changes what surrounds them. -/
def fetching {R ν : Type} [Quantity R] (network : Handler ν Exchange.network) :
    Setting (List Payloads × (KeyRing R × ν)) (steps.sum ApiClient.requests)
      (Except FetchError Payloads) where
  toHandler := surroundings network
  starts _ _ p := ∃ c config ids, p = through c config ids
  changes _ _ _ := True

theorem heeds_network : Network.handler.Heeds Exchange.waits where
  ends now op n a waited := by cases op <;> cases waited <;> rfl
  atOnce now cancelled op n until_ never := by
    cases op with
    | report event =>
      show (n.report event).1 ≠ _
      rw [Network.report]
      dsimp only
      split
      · split <;> nofun
      · nofun
    | draw bound => nofun
    | pause d => cases never
    | send url => cases never
    | receive => cases never

section Surroundings

variable {R ν : Type} [Quantity R] {network : Handler ν Exchange.network}

private theorem heeds_surroundings (heeds : network.Heeds Exchange.waits) :
    (surroundings (R := R) network).Heeds waits := by
  have pauses : Handler.Heeds ⟨Chunking.start, Chunking.resume⟩ stepWaits := by
    constructor
    · intro now op s a waited
      cases op <;> cases waited
      rfl
    · intro now cancelled op s until_ never
      cases op with
      | pause d => cases never
      | deliver chunk => nofun
  have tokens : (Keys.controls (R := R)).Heeds KeyRing.waits := by
    constructor
    · intro now op k a waited
      cases op <;> cases waited
      rfl
    · intro now cancelled op k until_ never
      cases op with
      | acquire kind => cases never
      | _ => nofun
  have selections : (Keys.selections (R := R)).Heeds (.none ApiClient.selections) := by
    constructor
    · exact fun _ _ _ _ waited => nomatch waited
    · exact fun _ _ _ _ _ _ => nofun
  exact pauses.onFirst.sum (selections.onFirst.sum (tokens.onFirst.sum heeds.onSecond)).onSecond

/-- A fetch that is cancelled while it waits, for whatever it waits, ends with exactly this failure.
Its next move leaves everything as it was, and the end of the wait is the last thing it ever asks for:
nothing is sent, delivered, blamed or cleared any more. -/
theorem cancelled_while_waiting (heeds : network.Heeds Exchange.waits)
    {s : List Payloads × (KeyRing R × ν)}
    {v : System (List Payloads × (KeyRing R × ν)) (steps.sum ApiClient.requests)
      (Except FetchError Payloads)}
    (reached : (fetching network).Reaches s v) {i : Nat}
    {t : Thread (steps.sum ApiClient.requests) (Except FetchError Payloads)}
    (found : v.threads[i]? = some t) (suspended : t.pose = .waiting)
    (cancelled : t.cancelled = true) :
    ∃ op a, (∃ next, t.rest = .ask op next) ∧ waits op = some a ∧
      (∀ now s, t.move (surroundings (R := R) network) now s =
        (t.answered now op a (.done (.error .cancelled)), s)) ∧
      ∀ v', (fetching network).Leads v v' → v'.threads[i]? = some t ∨
        ∃ now, v'.threads[i]? = some (t.answered now op a (.done (.error .cancelled))) := by
  have member := List.mem_of_getElem? found
  obtain ⟨⟨_, _, c, config, ids, origin⟩, after⟩ := reached.after t member
  have obeys : t.rest.Heeds waits (· = .error .cancelled) := by
    rw [origin] at after
    exact (heeds_through c config ids).after after
  have all_heed := heeds_surroundings (R := R) heeds
  obtain ⟨op, next, a, asks, waited⟩ := reached.waits all_heed t member suspended
  have stopping : t.Stopping waits op a := ⟨⟨next, asks⟩, waited, suspended, cancelled⟩
  obtain ⟨r, rfl, moves⟩ := stopping.move all_heed obeys
  exact ⟨op, a, ⟨next, asks⟩, waited, moves, fun v' run => stopping.leads run found moves⟩

end Surroundings

def plainClient : ApiClient :=
  ⟨"coins", ⟨{ path := "/c/\x7b\x7bid\x7d\x7d" }, ⟨"/c/\x7b\x7bid\x7d\x7d", .single⟩⟩, .wait, {}⟩

def sending : Thread (steps.sum ApiClient.requests) (Except FetchError Payloads) ×
    (List Payloads × (KeyRing Rat × Network)) :=
  (fun x => x.1.move (surroundings Network.handler) 0 x.2)^[4]
    (.ofProgram (through plainClient {} ["a", "b"]) 0,
      [], KeyRing.ofCredentials [] {}, .ofScript true [])

def cutOff : Thread (steps.sum ApiClient.requests) (Except FetchError Payloads) :=
  { sending.1 with cancelled := true }

def address? : Program (steps.sum ApiClient.requests) (Except FetchError Payloads) → Option String
  | .ask (.inr (.inr (.inr (.send url)))) _ => some url
  | _ => none

theorem cancelled_while_sending :
    Network.handler.Heeds Exchange.waits ∧ cutOff.pose = .waiting ∧ cutOff.cancelled = true ∧
      address? cutOff.rest = some "https://api.coingecko.com/api/v3/c/a" ∧
      ∀ now s,
        (cutOff.move (surroundings Network.handler) now s).1.rest = .done (.error .cancelled) ∧
          (cutOff.move (surroundings (R := Rat) Network.handler) now s).2 = s := by
  have waiting : cutOff.pose = .waiting := by decide +kernel
  obtain ⟨start, run⟩ := Setting.reaches_iterate (A := fetching (R := Rat) Network.handler)
    (s := ([], KeyRing.ofCredentials [] {}, .ofScript true []))
    ⟨plainClient, {}, ["a", "b"], rfl⟩ 4
  have reached : (fetching (R := Rat) Network.handler).Reaches
      ([], KeyRing.ofCredentials [] {}, .ofScript true []) ⟨0, sending.2, [cutOff]⟩ :=
    ⟨start, run.tail (.cancel (i := 0) rfl)⟩
  obtain ⟨op, a, -, -, moves, -⟩ :=
    cancelled_while_waiting heeds_network reached (i := 0) rfl waiting rfl
  refine ⟨heeds_network, waiting, rfl, by decide +kernel, fun now s => ?_⟩
  rw [moves now s]
  exact ⟨rfl, rfl⟩

end ChunkFetch

end MarketFeed
