import Mathlib.Data.List.ModifyLast
import MarketFeed.Proofs.ApiClient.Sessions
import MarketFeed.Proofs.Exchange.Outcomes
import MarketFeed.Proofs.KeyRing.Tokens
/-!
The pace of the requests of a client. A token admits one use of a credential, and a use sends no more
requests than there are attempts, each for the address with that credential. So the uses keep to the limit
of their kind, and the requests to as many times as much, with one use that was admitted before.
-/

set_option autoImplicit false
set_option relaxedAutoImplicit false

namespace MarketFeed

open Program Simulation

namespace ApiClient

/-! ### The uses of credentials -/

/-- The use of a credential that a token admitted: its kind, when the token was given, and the requests
that were sent before the next token was given, with their times. -/
structure Admitted where
  kind : Credential.Kind
  begun : Instant
  sent : List (Instant × String)

namespace Admitted

def send (asked : Instant) (url : String) (u : Admitted) : Admitted :=
  { u with sent := u.sent ++ [(asked, url)] }

/-- The requests that were sent between two points in time. -/
def within (a b : Instant) (u : Admitted) : List (Instant × String) :=
  u.sent.filter fun r => a ≤ r.1 ∧ r.1 ≤ b

end Admitted

def noteUse (uses : List Admitted) : Spanned requests → List Admitted
  | ⟨_, answered, ⟨.inr (.inl op), r⟩⟩ =>
    uses ++ ((KeyRing.token? op r).map fun kind => ⟨kind, answered, []⟩).toList
  | ⟨asked, _, ⟨.inr (.inr (.send url)), _⟩⟩ => uses.modifyLast (Admitted.send asked url)
  | _ => uses

def uses (log : List (Spanned requests)) : List Admitted := log.foldl noteUse []

def usesOf (kind : Credential.Kind) (log : List (Spanned requests)) : List Admitted :=
  (uses log).filter fun u => u.kind = kind

/-- The address that was asked for, and when. -/
def request? : Spanned requests → Option (Instant × String)
  | ⟨asked, _, ⟨.inr (.inr (.send url)), _⟩⟩ => some (asked, url)
  | _ => none

def requested (log : List (Spanned requests)) : List (Instant × String) := log.filterMap request?

structure InTurn (now : Instant) (uses : List Admitted) : Prop where
  spans : ∀ u ∈ uses, u.begun ≤ now ∧ ∀ r ∈ u.sent, u.begun ≤ r.1 ∧ r.1 ≤ now
  ordered : uses.Pairwise fun u u' => u.begun ≤ u'.begun ∧ ∀ r ∈ u.sent, r.1 ≤ u'.begun

def begins (kind : Credential.Kind) (uses : List Admitted) : List Instant :=
  (uses.filter fun u => u.kind = kind).map Admitted.begun

/-- The uses up to `now` are in turn, and the tokens for those of a kind are accounted for. -/
structure Paced (limit : RateLimit) (kind : Credential.Kind) (now : Instant) (k : KeyRing Rat)
    (uses : List Admitted) : Prop where
  metered : KeyRing.Metered limit kind now k.limiter (begins kind uses)
  inTurn : InTurn now uses

section Paced

variable {limit : RateLimit} {kind : Credential.Kind} {now later : Instant} {k k' : KeyRing Rat}
  {uses : List Admitted}

theorem InTurn.wait (inTurn : InTurn now uses) (le : now ≤ later) : InTurn later uses := by
  refine ⟨fun u member => ?_, inTurn.ordered⟩
  obtain ⟨past, spans⟩ := inTurn.spans u member
  exact ⟨Nat.le_trans past le, fun r sent => ⟨(spans r sent).1, Nat.le_trans (spans r sent).2 le⟩⟩

theorem InTurn.admit (inTurn : InTurn now uses) (kind : Credential.Kind) :
    InTurn now (uses ++ [⟨kind, now, []⟩]) := by
  refine ⟨fun u member => ?_, List.pairwise_append.mpr ⟨inTurn.ordered, List.pairwise_singleton _ _, ?_⟩⟩
  · rcases List.mem_append.mp member with old | new
    · exact inTurn.spans u old
    · rw [List.mem_singleton.mp new]
      exact ⟨Nat.le_refl now, nofun⟩
  · intro u old u' new
    rw [List.mem_singleton.mp new]
    obtain ⟨past, spans⟩ := inTurn.spans u old
    exact ⟨past, fun r sent => (spans r sent).2⟩

theorem InTurn.send (inTurn : InTurn now uses) (url : String) :
    InTurn now (uses.modifyLast (Admitted.send now url)) := by
  rcases List.eq_nil_or_concat uses with rfl | ⟨before, last, rfl⟩
  · exact inTurn
  · rw [List.concat_eq_append] at inTurn ⊢
    rw [List.modifyLast_concat]
    obtain ⟨spans, ordered⟩ := inTurn
    rw [List.pairwise_append] at ordered
    refine ⟨fun u member => ?_, List.pairwise_append.mpr ⟨ordered.1, List.pairwise_singleton _ _, ?_⟩⟩
    · rcases List.mem_append.mp member with old | new
      · exact spans u (List.mem_append_left _ old)
      · rw [List.mem_singleton.mp new]
        obtain ⟨past, sofar⟩ := spans last (List.mem_append_right _ List.mem_cons_self)
        refine ⟨past, fun r sent => ?_⟩
        rcases List.mem_append.mp sent with earlier | here
        · exact sofar r earlier
        · rw [List.mem_singleton.mp here]
          exact ⟨past, Nat.le_refl now⟩
    · intro u old u' new
      rw [List.mem_singleton.mp new]
      exact ordered.2.2 u old last List.mem_cons_self

private theorem begins_send (kind : Credential.Kind) (uses : List Admitted) (asked : Instant)
    (url : String) : begins kind (uses.modifyLast (Admitted.send asked url)) = begins kind uses := by
  rcases List.eq_nil_or_concat uses with rfl | ⟨before, last, rfl⟩
  · rfl
  · rw [List.concat_eq_append, List.modifyLast_concat]
    by_cases same : last.kind = kind <;> simp [begins, Admitted.send, same]

private theorem begins_admit (kind kind' : Credential.Kind) (uses : List Admitted) (begun : Instant) :
    begins kind (uses ++ [⟨kind', begun, []⟩]) =
      begins kind uses ++ if some kind' = some kind then [begun] else [] := by
  by_cases same : kind' = kind <;> simp [begins, same]

theorem Paced.wait (paced : Paced limit kind now k uses) (le : now ≤ later) :
    Paced limit kind later k uses := ⟨paced.metered.wait le, paced.inTurn.wait le⟩

theorem Paced.served {op : requests.Op} {r : requests.Answer op} (paced : Paced limit kind now k uses)
    (served : surroundings Rat op now k r later k') :
    Paced limit kind later k' (noteUse uses ⟨now, later, ⟨op, r⟩⟩) := by
  match op with
  | .inl (.available fine) =>
    obtain ⟨rfl, -, rfl⟩ := KeyRing.served_available served
    exact ⟨paced.metered, paced.inTurn⟩
  | .inr (.inl op) =>
    have metered := paced.metered.served served
    have inTurn := paced.inTurn.wait (Keys.controls.forward_service served)
    rw [noteUse]
    cases given : KeyRing.token? op r with
    | none =>
      rw [given, if_neg nofun, List.append_nil] at metered
      rw [Option.map_none, Option.toList_none, List.append_nil]
      exact ⟨metered, inTurn⟩
    | some kind' =>
      rw [given, ← begins_admit] at metered
      exact ⟨metered, inTurn.admit kind'⟩
  | .inr (.inr op) =>
    obtain ⟨le, rfl⟩ := served
    cases op with
    | send url =>
      have metered : KeyRing.Metered limit kind now k'.limiter
          (begins kind (uses.modifyLast (Admitted.send now url))) := by
        rw [begins_send]
        exact paced.metered
      exact Paced.wait ⟨metered, paced.inTurn.send url⟩ le
    | _ => exact paced.wait le

end Paced

/-! ### Requests between two points in time -/

section Within

variable {n : Nat} {us : List Admitted} {a : Instant} (b : Instant)

/-- Uses that were admitted after the first point send at most so many requests each, and only those admitted
before the second point send any. -/
theorem length_flatMap_within_of_late (bounded : ∀ u ∈ us, u.sent.length ≤ n)
    (spans : ∀ u ∈ us, ∀ r ∈ u.sent, u.begun ≤ r.1) (late : ∀ u ∈ us, a ≤ u.begun) :
    (us.flatMap (Admitted.within a b)).length ≤
      n * us.countP fun u => a ≤ u.begun ∧ u.begun ≤ b := by
  induction us with
  | nil => exact Nat.zero_le _
  | cons u us ih =>
    obtain ⟨here, bounded⟩ := List.forall_mem_cons.mp bounded
    obtain ⟨after, spans⟩ := List.forall_mem_cons.mp spans
    obtain ⟨since, late⟩ := List.forall_mem_cons.mp late
    have rest := ih bounded spans late
    have most : (u.within a b).length ≤ n := Nat.le_trans (List.length_filter_le ..) here
    rw [List.flatMap_cons, List.length_append]
    by_cases before : u.begun ≤ b
    · rw [List.countP_cons_of_pos (by simpa using ⟨since, before⟩), Nat.mul_succ]
      omega
    · have silent : u.within a b = [] := by
        rw [Admitted.within, List.filter_eq_nil_iff]
        intro r sent
        have := after r sent
        simp only [decide_eq_true_eq, not_and, Nat.not_le]
        intro _
        exact Nat.lt_of_lt_of_le (Nat.lt_of_not_le before) this
      rw [List.countP_cons_of_neg (by simpa using fun _ => Nat.lt_of_not_le before), silent]
      simpa using rest

theorem length_flatMap_within (bounded : ∀ u ∈ us, u.sent.length ≤ n)
    (spans : ∀ u ∈ us, ∀ r ∈ u.sent, u.begun ≤ r.1)
    (ordered : us.Pairwise fun u u' => u.begun ≤ u'.begun ∧ ∀ r ∈ u.sent, r.1 ≤ u'.begun) :
    (us.flatMap (Admitted.within a b)).length ≤
      n * (us.countP fun u => a ≤ u.begun ∧ u.begun ≤ b) + n := by
  induction us with
  | nil => exact Nat.zero_le _
  | cons u us ih =>
    by_cases since : a ≤ u.begun
    · have late : ∀ u' ∈ u :: us, a ≤ u'.begun := by
        refine List.forall_mem_cons.mpr ⟨since, fun u' member => ?_⟩
        exact Nat.le_trans since ((List.pairwise_cons.mp ordered).1 u' member).1
      exact Nat.le_trans (length_flatMap_within_of_late b bounded spans late) (Nat.le_add_right _ _)
    · obtain ⟨here, bounded⟩ := List.forall_mem_cons.mp bounded
      obtain ⟨-, spans⟩ := List.forall_mem_cons.mp spans
      obtain ⟨next, ordered⟩ := List.pairwise_cons.mp ordered
      rw [List.countP_cons_of_neg (by simp [since]), List.flatMap_cons, List.length_append]
      -- before a use that was itself admitted before `a` nothing is left to send
      by_cases early : ∃ u' ∈ us, u'.begun < a
      · obtain ⟨u', member, before⟩ := early
        have silent : u.within a b = [] := by
          rw [Admitted.within, List.filter_eq_nil_iff]
          intro r sent
          have := Nat.lt_of_le_of_lt ((next u' member).2 r sent) before
          simp [Nat.not_le.mpr this]
        rw [silent]
        simpa using ih bounded spans ordered
      · have late : ∀ u' ∈ us, a ≤ u'.begun := by
          intro u' member
          exact Nat.le_of_not_lt fun before => early ⟨u', member, before⟩
        have rest := length_flatMap_within_of_late b bounded spans late
        have most : (u.within a b).length ≤ n := Nat.le_trans (List.length_filter_le ..) here
        omega

end Within

/-! ### The uses of one fetch -/

structure Admitted.Of (c : ApiClient) (u : Admitted) : Prop where
  bounded : u.sent.length ≤ c.retry.attempts
  addressed : ∃ ids key, key.kind = u.kind ∧ ∀ r ∈ u.sent, c.locator.url ids (some key) = .ok r.2

/-- The uses that a log tells of, with all of its requests. -/
structure Tells (c : ApiClient) (log : List (Spanned requests)) (new : List Admitted) : Prop where
  noted : ∀ uses, log.foldl noteUse uses = uses ++ new
  of : ∀ u ∈ new, u.Of c
  requested : requested log = new.flatMap Admitted.sent

section Tells

variable {c : ApiClient} {ids : List String} {log more : List (Spanned requests)}
  {new later_ : List Admitted}

theorem Tells.nil : Tells c [] [] := ⟨fun _ => (List.append_nil _).symm, nofun, rfl⟩

theorem Tells.append (first : Tells c log new) (second : Tells c more later_) :
    Tells c (log ++ more) (new ++ later_) := by
  refine ⟨fun uses => ?_, fun u member => ?_, ?_⟩
  · rw [List.foldl_append, first.noted, second.noted, List.append_assoc]
  · rcases List.mem_append.mp member with old | here
    · exact first.of u old
    · exact second.of u here
  · rw [List.flatMap_append, ← first.requested, ← second.requested]
    exact List.filterMap_append

theorem tells_available (c : ApiClient) (asked answered : Instant) (fine : Bool)
    (r : selections.Answer (.available fine)) :
    Tells c [⟨asked, answered, ⟨.inl (.available fine), r⟩⟩] [] :=
  ⟨fun uses => (List.append_nil uses).symm, nofun, rfl⟩

theorem tells_control (c : ApiClient) (asked answered : Instant) (op : KeyRing.controls.Op)
    (r : KeyRing.controls.Answer op) :
    Tells c [⟨asked, answered, ⟨.inr (.inl op), r⟩⟩]
      ((KeyRing.token? op r).map fun kind => ⟨kind, answered, []⟩).toList := by
  refine ⟨fun uses => rfl, fun u member => ?_, ?_⟩
  · obtain ⟨kind, -, rfl⟩ := Option.map_eq_some_iff.mp (Option.mem_toList.mp member)
    exact ⟨Nat.zero_le _, [], ⟨"", kind⟩, rfl, nofun⟩
  · cases KeyRing.token? op r <;> rfl

variable {R : Type} [Quantity R] {now later : Instant} {k k' : KeyRing R}

private def onNetwork (e : Spanned Exchange.network) : Spanned requests := e.inSecond.inSecond

private theorem noteUse_onNetwork (uses : List Admitted) (u : Admitted) (e : Spanned Exchange.network) :
    noteUse (uses ++ [u]) (onNetwork e) =
      uses ++ [{ u with sent := u.sent ++ (request? (onNetwork e)).toList }] := by
  obtain ⟨asked, answered, op, r⟩ := e
  cases op with
  | send url => exact List.modifyLast_concat ..
  | _ => exact congrArg (fun sent => uses ++ [{ u with sent := sent }]) (List.append_nil u.sent).symm

private theorem foldl_noteUse_onNetwork (part : List (Spanned Exchange.network)) (uses : List Admitted)
    (u : Admitted) :
    (part.map onNetwork).foldl noteUse (uses ++ [u]) =
      uses ++ [{ u with sent := u.sent ++ requested (part.map onNetwork) }] := by
  induction part generalizing u with
  | nil => simp [requested]
  | cons e part ih =>
    rw [List.map_cons, List.foldl_cons, noteUse_onNetwork, ih, List.append_assoc]
    cases asks : request? (onNetwork e) <;> simp [requested, asks]

private theorem requested_onNetwork (part : List (Spanned Exchange.network)) :
    (requested (part.map onNetwork)).map Prod.snd =
      Exchange.addresses (part.map Spanned.exchanged) := by
  have one : ∀ e : Spanned Exchange.network,
      (request? (onNetwork e)).map Prod.snd = Exchange.address? e.exchanged := by
    rintro ⟨asked, answered, op, r⟩
    cases op <;> rfl
  unfold requested Exchange.addresses
  rw [List.map_filterMap, List.filterMap_map, List.filterMap_map]
  exact congrArg (fun f => part.filterMap f) (funext one)

private theorem tells_useCredential {key : Credential} {r : Except FetchError Exchange.Response}
    {token : Spanned requests} {begun : Instant}
    (given : Tells c [token] [⟨key.kind, begun, []⟩])
    (elapses : (c.useCredential ids key).Elapses (surroundings R) now k log r later k') :
    ∃ u, Tells c (token :: log) [u] := by
  rw [useCredential] at elapses
  split at elapses
  · obtain ⟨rfl, -⟩ := elapses_pure elapses
    exact ⟨_, given⟩
  · rename_i url located
    obtain ⟨_, rfl, within_⟩ := elapses_inSecond elapses
    obtain ⟨part, rfl, performs⟩ := elapses_inSecond within_
    rw [List.map_map]
    obtain ⟨m, most, asked⟩ := (Exchange.addresses_perform (h := []) _ _ _).runs performs.runs
    have addresses : (requested (part.map onNetwork)).map Prod.snd = List.replicate m url := by
      rw [requested_onNetwork]
      exact asked
    refine ⟨⟨key.kind, begun, requested (part.map onNetwork)⟩, ?_, ?_, ?_⟩
    · intro uses
      refine (congrArg (List.foldl noteUse · (part.map onNetwork)) (given.noted uses)).trans ?_
      exact foldl_noteUse_onNetwork part uses _
    · rw [List.forall_mem_singleton]
      refine ⟨?_, ids, key, rfl, fun r sent => ?_⟩
      · have count := congrArg List.length addresses
        rw [List.length_map, List.length_replicate] at count
        exact count.symm ▸ most
      · have among : r.2 ∈ List.replicate m url := addresses ▸ List.mem_map_of_mem sent
        rw [List.eq_of_mem_replicate among]
        exact located
    · have silent : requested [token] = [] := given.requested
      have split_ : requested ([token] ++ part.map onNetwork) =
          requested [token] ++ requested (part.map onNetwork) := List.filterMap_append
      rw [List.flatMap_singleton]
      exact split_.trans (congrArg (· ++ _) silent)

variable {policy : RateLimit.Policy} {key : Credential} {keys : List Credential}
  {asked : List (Spanned (KeyRing.sessions Exchange.Response))} {r : Except FetchError Exchange.Response}

private def IsControl : Exchanged (KeyRing.sessions Exchange.Response) → Prop
  | ⟨.inr (.inl _), _⟩ => True
  | _ => False

private theorem tells_of_controls (controls : ∀ e ∈ asked, IsControl e.exchanged)
    (carried : Carried (surroundings R) (c.carrySession ids) asked log) : ∃ new, Tells c log new := by
  induction carried with
  | nil => exact ⟨[], .nil⟩
  | @cons op _ _ _ _ _ r _ _ _ done _ ih =>
    obtain ⟨here, controls⟩ := List.forall_mem_cons.mp controls
    obtain ⟨new, tells⟩ := ih controls
    match op with
    | .inl _ | .inr (.inr _) => exact here.elim
    | .inr (.inl op) =>
      obtain ⟨_, -, -, rfl⟩ := elapses_call done
      exact ⟨_, (tells_control c _ _ op r).append tells⟩

private theorem isControl_of_quiet {e : Exchanged (KeyRing.sessions Exchange.Response)}
    (quiet : KeyRing.Quiet e) : IsControl e := by
  obtain ⟨op, r⟩ := e
  match op with
  | .inl _ | .inr (.inr _) => exact quiet.elim
  | .inr (.inl _) => trivial

private theorem tells_of_token {e : Spanned (KeyRing.sessions Exchange.Response)} {kind : Credential.Kind}
    (token : e.exchanged = KeyRing.token policy kind true)
    (carried : Carried (surroundings R) (c.carrySession ids) [e] log) :
    ∃ t begun, log = [t] ∧ Tells c [t] [⟨kind, begun, []⟩] := by
  obtain ⟨asked, begun, _⟩ := e
  cases token
  cases policy with
  | wait =>
    cases carried with
    | cons done rest =>
      cases rest
      obtain ⟨sent, -, -, rfl⟩ := elapses_call done
      exact ⟨_, begun, rfl, tells_control c sent begun (.acquire kind) Signal.elapsed⟩
  | skip =>
    cases carried with
    | cons done rest =>
      cases rest
      obtain ⟨sent, -, -, rfl⟩ := elapses_call done
      exact ⟨_, begun, rfl, tells_control c sent begun (.tryAcquire kind) true⟩

private theorem tells_of_called {opens : List (Spanned (KeyRing.sessions Exchange.Response))}
    {between begun answered : Instant} {mid : KeyRing R}
    (opened : KeyRing.Opened policy key.kind true now k opens between mid)
    (carried : Carried (surroundings R) (c.carrySession ids)
      (opens ++ [KeyRing.called begun answered key r]) log) : ∃ new, Tells c log new := by
  have exchanged := opened.exchanged
  rw [KeyRing.opening, List.map_eq_cons_iff] at exchanged
  obtain ⟨first, _, rfl, isOff, exchanged⟩ := exchanged
  obtain ⟨second, rfl, token⟩ := List.map_eq_singleton_iff.mp exchanged
  obtain ⟨_, _, rfl, asks, using_⟩ := carried_append _ carried
  obtain ⟨_, _, rfl, looks, takes⟩ := carried_append [first] asks
  obtain ⟨looked, tells⟩ : ∃ new, Tells c _ new := by
    refine tells_of_controls ?_ looks
    rw [List.forall_mem_singleton, isOff]
    trivial
  obtain ⟨t, begun, rfl, given⟩ := tells_of_token token takes
  cases using_ with
  | cons done rest =>
    cases rest
    obtain ⟨u, used⟩ := tells_useCredential given done
    refine ⟨looked ++ [u], ?_⟩
    rw [List.append_nil, List.append_assoc]
    exact tells.append used

private theorem tells_of_rotates (rotates : KeyRing.Rotates policy keys now k asked r later k')
    (carried : Carried (surroundings R) (c.carrySession ids) asked log) : ∃ new, Tells c log new := by
  induction rotates generalizing log with
  | exhausted =>
    cases carried
    exact ⟨[], .nil⟩
  | cancelled quiet => exact tells_of_controls (fun e member => isControl_of_quiet (quiet e member)) carried
  | skipped _ opened _ ih =>
    obtain ⟨_, _, rfl, opens, onward⟩ := carried_append _ carried
    obtain ⟨before, passing⟩ :=
      tells_of_controls (fun e member => isControl_of_quiet (opened.quiet e member)) opens
    obtain ⟨after, further⟩ := ih onward
    exact ⟨before ++ after, passing.append further⟩
  | @failed key _ _ _ _ _ marked _ _ _ _ _ _ _ _ opened _ _ _ _ _ ih =>
    rw [List.append_cons] at carried
    obtain ⟨_, _, rfl, calls, onward⟩ := carried_append _ carried
    obtain ⟨_, _, rfl, marks, onward⟩ := carried_append [KeyRing.blamed marked key.secret] onward
    obtain ⟨first, used⟩ := tells_of_called opened calls
    obtain ⟨second, blamed⟩ := tells_of_controls (by rw [List.forall_mem_singleton]; trivial) marks
    obtain ⟨third, further⟩ := ih onward
    exact ⟨first ++ (second ++ third), used.append (blamed.append further)⟩
  | gaveUp opened => exact tells_of_called opened carried
  | @succeeded key _ _ _ _ _ marked _ _ _ _ opened =>
    rw [List.append_cons] at carried
    obtain ⟨_, _, rfl, calls, marks⟩ := carried_append _ carried
    obtain ⟨first, used⟩ := tells_of_called opened calls
    obtain ⟨second, cleared⟩ := tells_of_controls (by rw [List.forall_mem_singleton]; trivial) marks
    exact ⟨first ++ second, used.append cleared⟩

theorem tells_of_fetch {result : Except FetchError Payloads}
    (elapses : (c.fetch ids).Elapses (surroundings R) now k log result later k') :
    ∃ new, Tells c log new := by
  by_cases empty : ids = []
  · subst empty
    obtain ⟨rfl, -⟩ := elapses_pure elapses
    exact ⟨[], .nil⟩
  · obtain ⟨_, ended, session, carried, -⟩ := session_of_fetch empty elapses
    obtain ⟨begun, asked, -, rfl, rotates⟩ := KeyRing.rotates_of_session session
    cases carried with
    | cons done rest =>
      obtain ⟨_, -, -, rfl⟩ := elapses_call done
      obtain ⟨new, tells⟩ := tells_of_rotates rotates rest
      exact ⟨[] ++ new, (tells_available c _ _ _ _).append tells⟩

theorem tells_of_series {logs : List (List (Spanned requests))}
    (series : Series (surroundings R) (fun p => ∃ ids, p = c.fetch ids) now k logs later k') :
    ∃ new, Tells c logs.flatten new := by
  induction series with
  | none => exact ⟨[], .nil⟩
  | next _ allowed elapses ih =>
    obtain ⟨ids, rfl⟩ := allowed
    obtain ⟨before, tells⟩ := ih
    obtain ⟨new, here⟩ := tells_of_fetch elapses
    refine ⟨before ++ new, ?_⟩
    rw [List.flatten_append, List.flatten_singleton]
    exact tells.append here

end Tells

/-! ### Fetches one after the other -/

/-- The pace of all requests of a client, with any pauses between its fetches: between any two points in time
no more uses of credentials of a kind are admitted than the limit of the kind allows. Each sends at most as
many requests as there are attempts, so all that is sent between these points with such credentials is at
most so many times what the limit allows, and the requests of one use that was admitted before. -/
theorem requests_paced {credentials : List Credential} {config : KeyRing.Config} {c : ApiClient}
    {now later : Instant} {logs : List (List (Spanned requests))} {k' : KeyRing Rat}
    (series : Series (surroundings Rat) (fun p => ∃ ids, p = c.fetch ids) now
      (.ofCredentials credentials config) logs later k') :
    (∀ u ∈ uses logs.flatten, u.Of c) ∧
    requested logs.flatten = (uses logs.flatten).flatMap Admitted.sent ∧
    InTurn later (uses logs.flatten) ∧
    ∀ kind a b, a ≤ b →
      ((usesOf kind logs.flatten).countP (fun u => a ≤ u.begun ∧ u.begun ≤ b) : Rat) ≤
        (config.limitFor kind).atOnce + Instant.secondsTo a b * (config.limitFor kind).perSecond ∧
      (((usesOf kind logs.flatten).flatMap (Admitted.within a b)).length : Rat) ≤
        c.retry.attempts *
          ((config.limitFor kind).atOnce + Instant.secondsTo a b * (config.limitFor kind).perSecond) +
        c.retry.attempts := by
  -- the fold over the log reads off the same uses that the structure of the fetches tells of
  obtain ⟨new, tells⟩ := tells_of_series series
  have told : uses logs.flatten = new := tells.noted []
  have paced : ∀ kind, Paced (config.limitFor kind) kind later k' (uses logs.flatten) := by
    intro kind
    have start : Paced (config.limitFor kind) kind now (.ofCredentials credentials config) [] :=
      ⟨.first (Limiter.sound_ofCredentials credentials config kind now), nofun, .nil⟩
    exact series.keeps (I := Paced (config.limitFor kind) kind) (fun le paced => paced.wait le)
      (fun served paced => paced.served served) start
  have inTurn := (paced .paid).inTurn
  refine ⟨told ▸ tells.of, told ▸ tells.requested, inTurn, fun kind a b le => ?_⟩
  have counted := (paced kind).metered.within a b le
  rw [begins, List.countP_map] at counted
  refine ⟨counted, ?_⟩
  have member : ∀ u ∈ usesOf kind logs.flatten, u ∈ uses logs.flatten :=
    fun u member => List.mem_of_mem_filter member
  have sends : ((usesOf kind logs.flatten).flatMap (Admitted.within a b)).length ≤
      c.retry.attempts * ((usesOf kind logs.flatten).countP fun u => a ≤ u.begun ∧ u.begun ≤ b) +
        c.retry.attempts := by
    refine length_flatMap_within b ?_ ?_ (inTurn.ordered.filter _)
    · exact fun u among => (tells.of u (told ▸ member u among)).bounded
    · exact fun u among r sent => ((inTurn.spans u (member u among)).2 r sent).1
  calc (((usesOf kind logs.flatten).flatMap (Admitted.within a b)).length : Rat)
      ≤ (c.retry.attempts * ((usesOf kind logs.flatten).countP fun u => a ≤ u.begun ∧ u.begun ≤ b) +
          c.retry.attempts : Nat) := by exact_mod_cast sends
    _ = c.retry.attempts * ((usesOf kind logs.flatten).countP fun u => a ≤ u.begun ∧ u.begun ≤ b : Nat) +
          c.retry.attempts := by push_cast; rfl
    _ ≤ c.retry.attempts *
          ((config.limitFor kind).atOnce + Instant.secondsTo a b * (config.limitFor kind).perSecond) +
        c.retry.attempts := by
      have times := mul_le_mul_of_nonneg_left counted (Nat.cast_nonneg (α := Rat) c.retry.attempts)
      exact add_le_add times (le_refl _)

def thriceClient : ApiClient :=
  ⟨"coins", ⟨{ path := "/c/\x7b\x7bid\x7d\x7d" }, ⟨"/c/\x7b\x7bid\x7d\x7d", .single⟩⟩, .skip,
    { maxRetries := 3, baseBackoffMs := 0 }⟩

def onceAMinute : KeyRing.Config :=
  { rateLimits := { paid := none, demo := none, anonymous := some ⟨1, 1⟩ } }

def refusedThrice : List (Spanned requests) × Except FetchError Payloads × Instant × KeyRing Rat :=
  (thriceClient.fetch ["a"]).enact replying [(503, []), (503, []), (503, [])] 0
    (.ofCredentials [] onceAMinute)

def answeredThen : List (Spanned requests) × Except FetchError Payloads × Instant × KeyRing Rat :=
  (thriceClient.fetch ["a"]).enact replying [(200, [])] 120000000000 refusedThrice.2.2.2

private theorem series_refusedThrice :
    Series (surroundings Rat) (fun p => ∃ ids, p = thriceClient.fetch ids) 0
      (.ofCredentials [] onceAMinute) [refusedThrice.1] refusedThrice.2.2.1 refusedThrice.2.2.2 :=
  .next .none ⟨["a"], rfl⟩ (elapses_enact surroundings_replying _ _ _ _)

theorem requests_paced_refused :
    Series (surroundings Rat) (fun p => ∃ ids, p = thriceClient.fetch ids) 0
      (.ofCredentials [] onceAMinute) [refusedThrice.1, answeredThen.1] answeredThen.2.2.1
      answeredThen.2.2.2 ∧
    (usesOf .anonymous [refusedThrice.1, answeredThen.1].flatten).map Admitted.begun =
      [0, 120000000000] ∧
    (((usesOf .anonymous [refusedThrice.1, answeredThen.1].flatten).flatMap
        (Admitted.within 0 120000000000)).length : Rat) ≤ 3 * (1 + 120 * (1 / 60)) + 3 := by
  have series : Series (surroundings Rat) (fun p => ∃ ids, p = thriceClient.fetch ids) 0
      (.ofCredentials [] onceAMinute) [refusedThrice.1, answeredThen.1] answeredThen.2.2.1
      answeredThen.2.2.2 := by
    have second := elapses_enact surroundings_replying (thriceClient.fetch ["a"]) [(200, [])] 120000000000
      refusedThrice.2.2.2
    have passed : refusedThrice.2.2.1 ≤ 120000000000 := by decide +kernel
    exact .next series_refusedThrice ⟨["a"], rfl⟩ (second.wait passed (List.cons_ne_nil _ _))
  obtain ⟨-, -, -, bounds⟩ := requests_paced series
  obtain ⟨-, sends⟩ := bounds .anonymous 0 120000000000 (Nat.zero_le _)
  have limit : (thriceClient.retry.attempts : Rat) *
      ((onceAMinute.limitFor .anonymous).atOnce +
        Instant.secondsTo 0 120000000000 * (onceAMinute.limitFor .anonymous).perSecond) +
      thriceClient.retry.attempts = 3 * (1 + 120 * (1 / 60)) + 3 := by decide +kernel
  rw [limit] at sends
  exact ⟨series, by decide +kernel, sends⟩

/-- The limit of a kind does not bound the requests with credentials of it: attempts take no tokens. -/
theorem attempts_exceed_limit :
    Series (surroundings Rat) (fun p => ∃ ids, p = thriceClient.fetch ids) 0
      (.ofCredentials [] onceAMinute) [refusedThrice.1] refusedThrice.2.2.1 refusedThrice.2.2.2 ∧
    (requested [refusedThrice.1].flatten).length = 3 ∧
    ¬ (((usesOf .anonymous [refusedThrice.1].flatten).flatMap (Admitted.within 0 0)).length : Rat) ≤
      (onceAMinute.limitFor .anonymous).atOnce +
        Instant.secondsTo 0 0 * (onceAMinute.limitFor .anonymous).perSecond :=
  ⟨series_refusedThrice, by decide +kernel, by decide +kernel⟩

end ApiClient

end MarketFeed
