import MarketFeed.Proofs.Cooldown.Failures
import MarketFeed.Proofs.KeyRing.Sessions
import MarketFeed.Proofs.Simulation.Tracing
/-!
The credentials that a key ring offers. Whatever the threads that share it have done, these are the
configured ones with a secret, the paid before the demo ones, and the anonymous one where it belongs, except
those whose secrets are in cooldown; and what is in cooldown is told by the marks that threads have made.
-/

set_option autoImplicit false
set_option relaxedAutoImplicit false

namespace MarketFeed

open Program Simulation

namespace KeyRing

/-! ### The order -/

section Order

variable {R : Type} {credentials : List Credential} {config : Config}

/-- The configured credentials of a kind that have a secret, in the order given. -/
def withSecret (kind : Credential.Kind) (credentials : List Credential) : List Credential :=
  credentials.filter fun c => c.kind = kind ∧ c.secret ≠ ""

theorem keyed_eq (credentials : List Credential) :
    keyed credentials = withSecret .paid credentials ++ withSecret .demo credentials := by
  have ofKind (kind : Credential.Kind) (known : kind ≠ .anonymous) :
      ((credentials.filter fun c => !c.isAnonymous && !c.secret.isEmpty).filter fun c => c.kind == kind) =
        withSecret kind credentials := by
    rw [List.filter_filter, withSecret]
    refine List.filter_congr fun c _ => ?_
    by_cases own : c.kind = kind
    · rw [Bool.eq_iff_iff]
      simp [own, known, Credential.isAnonymous]
    · simp [own]
  rw [keyed, List.flatMap_cons, List.flatMap_singleton, ofKind .paid nofun, ofKind .demo nofun]

theorem eq_of_sorted_by_kind {l : List Credential} (known : ∀ c ∈ l, c.isAnonymous = false)
    (sorted : l.Pairwise fun c d => c.kind.rank ≤ d.kind.rank) :
    l = l.filter (fun c => c.kind == .paid) ++ l.filter fun c => c.kind == .demo := by
  induction l with
  | nil => rfl
  | cons c l ih =>
    obtain ⟨first, sorted⟩ := List.pairwise_cons.mp sorted
    obtain ⟨own, known⟩ := List.forall_mem_cons.mp known
    have rest := ih known sorted
    cases kind : c.kind with
    | paid =>
      rw [List.filter_cons_of_pos (by simp [kind]), List.filter_cons_of_neg (by simp [kind]),
        List.cons_append, ← rest]
    | demo =>
      have none_paid : l.filter (fun c => c.kind == .paid) = [] := by
        refine List.filter_eq_nil_iff.mpr fun d member paid => ?_
        have le := first d member
        rw [kind, eq_of_beq paid] at le
        exact absurd le (by decide)
      rw [none_paid, List.nil_append] at rest
      rw [List.filter_cons_of_neg (by simp [kind]), List.filter_cons_of_pos (by simp [kind]), none_paid,
        List.nil_append, ← rest]
    | anonymous =>
      rw [Credential.isAnonymous, kind] at own
      cases own

def inOrder (c d : Credential) : Bool := c.kind.rank ≤ d.kind.rank

theorem inOrder_trans (a b c : Credential) (first : inOrder a b = true) (second : inOrder b c = true) :
    inOrder a c = true :=
  decide_eq_true (Nat.le_trans (of_decide_eq_true first) (of_decide_eq_true second))

theorem inOrder_total (a b : Credential) : (inOrder a b || inOrder b a) = true := by
  rw [Bool.or_eq_true, inOrder, inOrder, decide_eq_true_iff, decide_eq_true_iff]
  exact Nat.le_total _ _

theorem filter_mergeSort_kind (l : List Credential) (kind : Credential.Kind) :
    (l.mergeSort inOrder).filter (fun c => c.kind == kind) = l.filter fun c => c.kind == kind := by
  have equals : (l.filter fun c => c.kind == kind).Pairwise fun c d => inOrder c d = true := by
    refine List.pairwise_of_forall_mem_list fun c here d there => decide_eq_true ?_
    have same := (eq_of_beq (List.mem_filter.mp here).2).trans (eq_of_beq (List.mem_filter.mp there).2).symm
    exact Nat.le_of_eq (congrArg Credential.Kind.rank same)
  have kept := (List.sublist_mergeSort inOrder_trans inOrder_total equals List.filter_sublist).filter
    fun c => c.kind == kind
  rw [List.filter_filter] at kept
  simp only [Bool.and_self] at kept
  exact (kept.eq_of_length ((List.mergeSort_perm l _).filter _).length_eq.symm).symm

/-- Keyed credentials are the configured ones with a secret in a stable order of their kinds. -/
theorem keyed_eq_mergeSort (credentials : List Credential) :
    keyed credentials =
      (credentials.filter fun c => !c.isAnonymous && !c.secret.isEmpty).mergeSort inOrder := by
  have sorted := List.pairwise_mergeSort inOrder_trans inOrder_total
    (credentials.filter fun c => !c.isAnonymous && !c.secret.isEmpty)
  rw [eq_of_sorted_by_kind ?_ (sorted.imp of_decide_eq_true), filter_mergeSort_kind, filter_mergeSort_kind]
  · rw [keyed, List.flatMap_cons, List.flatMap_singleton]
  · intro c member
    have usable := (List.mem_filter.mp (List.mem_mergeSort.mp member)).2
    simpa using (Bool.and_eq_true_iff.mp usable).1

end Order

/-! ### Threads that share a key ring -/

section Sharing

variable {R α β : Type}

def awaited (α : Type) : Handler (Option (Except FetchError α)) (uses α) where
  start now _
    | .call _, ended => (ended.elim (.wait now) .answer, ended)
  resume now _
    | .call _, ended => (ended.elim (.wait now) .answer, ended)

/-- Threads that ask anything of one key ring: which credentials it offers, tokens, marks, and whole
rotations. Their uses end in any way and at any time: the end of a use may change at any time. -/
def sharing (R α β : Type) [Quantity R] :
    Setting (KeyRing R × Option (Except FetchError α)) (sessions α) β where
  toHandler := Keys.selections.onFirst.sum (Keys.controls.onFirst.sum (awaited α).onSecond)
  starts _ _ _ := True
  changes _ s s' := s'.1 = s.1

def mark? : (sessions α).Op → Option Cooldown.Use
  | .inr (.inl (.markFailed secret)) => some (.fail secret)
  | .inr (.inl (.markSucceeded secret)) => some (.succeed secret)
  | _ => none

/-- The marks that threads have made, with their times. -/
def marked (threads : List (Thread (sessions α) β)) : Cooldown.Uses :=
  (threads.flatMap Thread.log).filterMap fun e => (mark? e.exchanged.op).map (e.time, ·)

def cooling (credentials : List Credential) (config : Config) :
    Account (KeyRing R × Option (Except FetchError α)) (Instant × Cooldown.Use) (sessions α) where
  time := Prod.fst
  told? e := (mark? e.exchanged.op).map (e.time, ·)
  isTold u := u.2.isMark
  leads uses s := s.1.credentials = keyed credentials ∧ s.1.config = config ∧
    s.1.cooldown = Cooldown.after (Duration.ofSeconds config.cooldownSecs.toNat) uses

theorem snd_sift (now : Instant) (keys : List Credential) (c : Cooldown) :
    (sift now keys c).2 =
      (keys.map fun key => (now, Cooldown.Use.ask key.secret)).foldl Cooldown.used c := by
  induction keys generalizing c with
  | nil => rfl
  | cons key keys ih => exact ih _

variable {credentials : List Credential} {config : Config} {now : Instant}
  {uses : Cooldown.Uses} {s s' : KeyRing R × Option (Except FetchError α)}

theorem adds_nothing {op : (sessions α).Op} {r : Step ((sessions α).Answer op)}
    (leads : (cooling credentials config).leads uses s) (silent : mark? op = none)
    (alike : Alike s.1 s'.1) : (cooling credentials config).Adds now uses op (r, s') := by
  obtain ⟨l, same⟩ := alike
  refine ⟨[], nofun, ?_, ?_⟩
  · rw [List.append_nil]
    show (cooling (R := R) (α := α) credentials config).leads uses s'
    simp only [cooling, same]
    exact leads
  · simp only [cooling, silent, Option.map_none]
    cases r.answer? <;> rfl

theorem adds_mark {op : (sessions α).Op} {a : (sessions α).Answer op} {u : Cooldown.Use}
    (leads : (cooling credentials config).leads uses s) (marks : mark? op = some u)
    (isMark : u.isMark = true) (left : s'.1 = { s.1 with cooldown := s.1.cooldown.used (now, u) }) :
    (cooling credentials config).Adds now uses op (.answer a, s') := by
  obtain ⟨keys, given, cooldown⟩ := leads
  refine ⟨[(now, u)], by simp [cooling], ?_, ?_⟩
  · show s'.1.credentials = _ ∧ s'.1.config = _ ∧ s'.1.cooldown = _
    rw [left, cooldown, Cooldown.after, Cooldown.after, List.foldl_append]
    exact ⟨keys, given, rfl⟩
  · simp [cooling, marks, isMark, Step.answer?]

theorem adds_available (fine : Bool) {a : List Credential}
    (leads : (cooling credentials config).leads uses s) :
    (cooling credentials config).Adds now uses (.inl (.available fine))
      (.answer a, (s.1.available now fine).2, s.2) := by
  obtain ⟨keys, given, cooldown⟩ := leads
  refine ⟨(s.1.ordered fine).map fun key => (now, .ask key.secret), by simp [cooling],
    ⟨keys, given, ?_⟩, ?_⟩
  · show (sift now (s.1.ordered fine) s.1.cooldown).2 = _
    rw [snd_sift, cooldown, Cooldown.after, Cooldown.after, List.foldl_append]
  · have quiet : ∀ u ∈ (s.1.ordered fine).map fun key => (now, Cooldown.Use.ask key.secret),
        ¬ u.2.isMark = true := by
      simp [Cooldown.Use.isMark]
    exact (List.filter_eq_nil_iff.mpr quiet).symm

theorem ordered_eq {k : KeyRing R} (keys : k.credentials = keyed credentials) (fine : Bool) :
    k.ordered fine =
      if k.config.allowAnonymous then
        if k.config.tryAnonymousFirst ∧ fine = false then
          Credential.unkeyed :: (withSecret .paid credentials ++ withSecret .demo credentials)
        else withSecret .paid credentials ++ withSecret .demo credentials ++ [Credential.unkeyed]
      else withSecret .paid credentials ++ withSecret .demo credentials := by
  rw [ordered, keys, keyed_eq]
  simp only [Bool.and_eq_true, Bool.not_eq_true']

theorem filter_ordered {k : KeyRing R} (keys : k.credentials = keyed credentials) (fine : Bool) :
    (k.ordered fine).filter (fun key => key.isAnonymous || key.secret.isEmpty) =
      if k.config.allowAnonymous then [Credential.unkeyed] else [] := by
  have secretive : k.credentials.filter (fun key => key.isAnonymous || key.secret.isEmpty) = [] := by
    rw [keys, keyed_eq]
    refine List.filter_eq_nil_iff.mpr fun key member => ?_
    rcases List.mem_append.mp member with paid | demo
    · have usable := of_decide_eq_true (List.mem_filter.mp paid).2
      simp [Credential.isAnonymous, usable]
    · have usable := of_decide_eq_true (List.mem_filter.mp demo).2
      simp [Credential.isAnonymous, usable]
  have unkeyed : [Credential.unkeyed].filter (fun key => key.isAnonymous || key.secret.isEmpty) =
      [Credential.unkeyed] := rfl
  rw [ordered]
  split
  · split
    · rw [← List.singleton_append, List.filter_append, unkeyed, secretive, List.append_nil]
    · rw [List.filter_append, unkeyed, secretive, List.nil_append]
  · exact secretive

theorem fst_available (k : KeyRing R) (now : Instant) (fine : Bool) :
    (k.available now fine).1 =
      (k.ordered fine).filter fun key => (k.cooldown.remaining now key.secret).isNone := by
  refine (Cooldown.fst_sift now (k.ordered fine) k.cooldown).trans (List.filter_congr fun key _ => ?_)
  rw [Bool.eq_iff_iff, Cooldown.available_iff, Option.isNone_iff_eq_none, Cooldown.remaining_eq_none_iff]

theorem filter_available {k : KeyRing R} (keys : k.credentials = keyed credentials) (now : Instant)
    (fine : Bool) :
    ((k.available now fine).1.filter fun key => key.isAnonymous || key.secret.isEmpty) =
      if k.config.allowAnonymous ∧ k.cooldown.remaining now "" = none then [Credential.unkeyed] else [] := by
  have swapped : ((k.available now fine).1.filter fun key => key.isAnonymous || key.secret.isEmpty) =
      (if k.config.allowAnonymous then [Credential.unkeyed] else []).filter fun key =>
        (k.cooldown.remaining now key.secret).isNone := by
    rw [← filter_ordered keys fine, fst_available, List.filter_filter, List.filter_filter]
    exact List.filter_congr fun key _ => Bool.and_comm ..
  rw [swapped]
  cases k.config.allowAnonymous with
  | false => rfl
  | true =>
    show List.filter _ [Credential.unkeyed] = _
    cases left : k.cooldown.remaining now "" <;> simp [Credential.unkeyed, left]

/-! ### Every mark of every thread -/

variable [Quantity R]

theorem adds_acquire (cancelled : Bool) (kind : Credential.Kind)
    (leads : (cooling credentials config).leads uses s) :
    (cooling credentials config).Adds now uses (.inr (.inl (.acquire kind)))
      ((Keys.acquire now cancelled kind s.1).1, (Keys.acquire now cancelled kind s.1).2, s.2) :=
  adds_nothing leads rfl ⟨_, acquire_limiter now cancelled kind s.1⟩

theorem adds_start (cancelled : Bool) (op : (sessions α).Op)
    (leads : (cooling credentials config).leads uses s) :
    (cooling credentials config).Adds now uses op ((sharing R α β).start now cancelled op s) := by
  match op with
  | .inl (.available fine) => exact adds_available fine leads
  | .inr (.inl .isCancelled) => exact adds_nothing leads rfl (.refl _)
  | .inr (.inl (.acquire kind)) => exact adds_acquire cancelled kind leads
  | .inr (.inl (.tryAcquire kind)) => exact adds_nothing leads rfl ⟨_, rfl⟩
  | .inr (.inl (.markFailed secret)) => exact adds_mark leads rfl rfl rfl
  | .inr (.inl (.markSucceeded secret)) => exact adds_mark leads rfl rfl rfl
  | .inr (.inr (.call key)) => exact adds_nothing leads rfl (.refl _)

theorem adds_resume (cancelled : Bool) (op : (sessions α).Op)
    (leads : (cooling credentials config).leads uses s) :
    (cooling credentials config).Adds now uses op ((sharing R α β).resume now cancelled op s) := by
  match op with
  | .inr (.inl (.acquire kind)) =>
    cases cancelled with
    | true => exact adds_nothing leads rfl (.refl _)
    | false => exact adds_acquire false kind leads
  | .inl (.available _) | .inr (.inl .isCancelled) | .inr (.inl (.tryAcquire _))
  | .inr (.inl (.markFailed _)) | .inr (.inl (.markSucceeded _)) | .inr (.inr (.call _)) =>
    exact adds_start (β := β) cancelled _ leads

theorem covers_cooling : (cooling credentials config).Covers (sharing R α β) where
  start := adds_start _ _
  resume := adds_resume _ _
  change := by
    intro now s s' uses same leads
    simp only [cooling, show s'.1 = s.1 from same]
    exact leads

/-- **What a key ring offers.** Whatever the threads that share a key ring have done, it offers the
configured paid credentials with a secret in their order, then the demo ones in theirs, and the anonymous
one exactly if it is allowed, first if so configured and no fine data is asked for and last otherwise, but
none that is in cooldown. No other credential that is anonymous or has no secret is offered. A secret is
not in cooldown exactly if the threads did not mark it as failed since they last marked it as good, or the
window after the last such mark has passed. -/
theorem available_reached {w : System (KeyRing R × Option (Except FetchError α)) (sessions α) β}
    {ended : Option (Except FetchError α)}
    (reached : (sharing R α β).Reaches (ofCredentials credentials config, ended) w) (fine : Bool) :
    let free (secret : String) := w.state.1.cooldown.remaining w.now secret = none
    let configured := withSecret .paid credentials ++ withSecret .demo credentials
    (w.state.1.available w.now fine).1 =
      (if config.allowAnonymous then
        if config.tryAnonymousFirst ∧ fine = false then Credential.unkeyed :: configured
        else configured ++ [Credential.unkeyed]
      else configured).filter (fun key => free key.secret) ∧
    ((w.state.1.available w.now fine).1.filter fun key => key.isAnonymous || key.secret.isEmpty) =
      (if config.allowAnonymous ∧ free "" then [Credential.unkeyed] else []) ∧
    ∃ marks, (marked w.threads).Perm marks ∧ Cooldown.Until w.now marks ∧
      ∀ secret, free secret ↔ (∀ failed, ¬ Cooldown.LastFailed marks secret failed) ∨
        ∃ failed, Cooldown.LastFailed marks secret failed ∧
          Instant.after failed (Duration.ofSeconds config.cooldownSecs.toNat) ≤ w.now := by
  have covers : (cooling credentials config).Covers (sharing R α β) := covers_cooling
  obtain ⟨uses, ordered, past, ⟨keys, given, cooldown⟩, told⟩ := covers.reached ⟨rfl, rfl, rfl⟩ reached
  have order : Cooldown.Until w.now uses := ⟨ordered, past⟩
  refine ⟨?_, ?_, uses.filter fun u => u.2.isMark, told, order.filter, fun secret => ?_⟩
  · rw [fst_available, ordered_eq keys, given]
    refine List.filter_congr fun key _ => ?_
    rw [Bool.eq_iff_iff, Option.isNone_iff_eq_none, decide_eq_true_iff]
  · rw [filter_available keys, given]
  · have keeps (u : Instant × Cooldown.Use) (marks : u.2.Marks secret) : u.2.isMark = true := marks.isMark
    simp only [Cooldown.lastFailed_filter keeps, cooldown]
    exact Cooldown.remaining_after_eq_none_iff order

end Sharing

def assorted : List Credential :=
  [⟨"d", .demo⟩, ⟨"p", .paid⟩, ⟨"", .paid⟩, ⟨"x", .anonymous⟩, ⟨"q", .paid⟩, ⟨"d", .demo⟩]

def anonymousFirst : Config := { tryAnonymousFirst := true }

def firstFailed : System (KeyRing Rat × Option (Except FetchError Nat)) (sessions Nat)
    (Except FetchError Nat) :=
  [0, 0, 0, 0, 0].foldl (sharing Rat Nat _).moveOf
    ⟨0, (ofCredentials assorted anonymousFirst, some (.error (.status 500 ""))),
      [.ofProgram (session .wait true) 0]⟩

theorem available_reached_firstFailed :
    (sharing Rat Nat _).Reaches
      (ofCredentials assorted anonymousFirst, some (.error (.status 500 ""))) firstFailed ∧
    (firstFailed.state.1.available 0 false).1 =
      [Credential.unkeyed, ⟨"q", .paid⟩, ⟨"d", .demo⟩, ⟨"d", .demo⟩] ∧
    (firstFailed.state.1.available (60 * nanosPerSecond) true).1 =
      [⟨"p", .paid⟩, ⟨"q", .paid⟩, ⟨"d", .demo⟩, ⟨"d", .demo⟩, Credential.unkeyed] := by
  have start := Setting.Next.start (A := sharing Rat Nat _) (p := session .wait true)
    (w := ⟨0, (ofCredentials assorted anonymousFirst, some (.error (.status 500 ""))), []⟩) trivial
  have run : (sharing Rat Nat _).Leads _ firstFailed := .head start (Setting.leads_moves _ _)
  have later := run.tail (.pass (show firstFailed.now ≤ 60 * nanosPerSecond by decide +kernel))
  exact ⟨⟨0, run⟩, (available_reached ⟨0, run⟩ false).1.trans (by decide +kernel),
    (available_reached ⟨0, later⟩ true).1.trans (by decide +kernel)⟩

end KeyRing

end MarketFeed
