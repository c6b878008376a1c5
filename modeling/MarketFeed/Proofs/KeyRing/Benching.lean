import Mathlib.Data.List.Nodup
import MarketFeed.Proofs.ApiClient.Sessions
import MarketFeed.Proofs.Cooldown.Forgetting
/-!
The benching of credentials over many sessions. No session that begins within the window after a failure
uses the credential again, so failures of one credential are a window apart; and whatever makes a credential
unavailable is a failure of its own with no success after it.
-/

set_option autoImplicit false
set_option relaxedAutoImplicit false

namespace MarketFeed

open Program Simulation

namespace KeyRing

variable {R α : Type}

/-! ### Uses in a log -/

def Fails (key : Credential) (e : Spanned (sessions α)) : Prop :=
  ∃ cause, cause.retryClass ≠ .never ∧ e.exchanged = ⟨.inr (.inr (.call key)), .error cause⟩

def Succeeds (key : Credential) (e : Spanned (sessions α)) : Prop :=
  ∃ value, e.exchanged = ⟨.inr (.inr (.call key)), .ok value⟩

def used? : Spanned (sessions α) → Option Credential
  | ⟨_, _, ⟨.inr (.inr (.call key)), _⟩⟩ => some key
  | _ => none

def usedIn (log : List (Spanned (sessions α))) : List Credential := log.filterMap used?

/-- A failure of the credential was recorded at `m`, right after the use that failed, and no use of it
succeeds after that. -/
def Benched (key : Credential) (m : Instant) (log : List (Spanned (sessions α))) : Prop :=
  ∃ before e after, log = before ++ e :: blamed m key.secret :: after ∧ Fails key e ∧
    ∀ e' ∈ after, ¬ Succeeds key e'

section Log

variable {key : Credential} {e : Spanned (sessions α)} {log more : List (Spanned (sessions α))}

theorem Fails.used (fails : Fails key e) : used? e = some key := by
  obtain ⟨asked, answered, op, r⟩ := e
  obtain ⟨cause, -, same⟩ := fails
  cases same
  rfl

theorem Succeeds.used (succeeds : Succeeds key e) : used? e = some key := by
  obtain ⟨asked, answered, op, r⟩ := e
  obtain ⟨value, same⟩ := succeeds
  cases same
  rfl

theorem used?_of_quiet (quiet : Quiet e.exchanged) : used? e = none := by
  obtain ⟨asked, answered, op, r⟩ := e
  match op with
  | .inl _ | .inr (.inl _) => rfl
  | .inr (.inr _) => exact quiet.elim

theorem usedIn_of_quiet (quiet : ∀ e ∈ log, Quiet e.exchanged) : usedIn log = [] := by
  rw [usedIn, List.filterMap_eq_nil_iff]
  exact fun e member => used?_of_quiet (quiet e member)

theorem usedIn_append (log more : List (Spanned (sessions α))) :
    usedIn (log ++ more) = usedIn log ++ usedIn more := List.filterMap_append

theorem mem_usedIn (fails : Fails key e) (member : e ∈ log) : key ∈ usedIn log :=
  List.mem_filterMap.mpr ⟨e, member, fails.used⟩

theorem Rotates.usedIn_sublist {policy : RateLimit.Policy} {keys : List Credential}
    {now later : Instant} {k k' : KeyRing R} {r : Except FetchError α}
    (rotates : Rotates policy keys now k log r later k') : (usedIn log).Sublist keys := by
  induction rotates with
  | exhausted => exact List.nil_sublist _
  | cancelled quiet =>
    rw [usedIn_of_quiet quiet]
    exact List.nil_sublist _
  | skipped _ opened _ ih =>
    rw [usedIn_append, usedIn_of_quiet opened.quiet]
    exact ih.cons _
  | failed opened _ _ _ _ _ ih =>
    rw [usedIn_append, usedIn_of_quiet opened.quiet]
    exact ih.cons_cons _
  | gaveUp opened =>
    rw [usedIn_append, usedIn_of_quiet opened.quiet]
    exact (List.nil_sublist _).cons_cons _
  | succeeded opened =>
    rw [usedIn_append, usedIn_of_quiet opened.quiet]
    exact (List.nil_sublist _).cons_cons _

theorem Benched.append {m : Instant} (benched : Benched key m log)
    (spared : ∀ e ∈ more, ¬ Succeeds key e) : Benched key m (log ++ more) := by
  obtain ⟨before, e, after, rfl, fails, none_later⟩ := benched
  refine ⟨before, e, after ++ more, by simp, fails, ?_⟩
  intro e' member
  rcases List.mem_append.mp member with old | new
  · exact none_later e' old
  · exact spared e' new

end Log

/-! ### What a key ring remembers -/

/-- A key ring remembers each failure until its window has passed, and nothing else. -/
structure Remembers (origin : KeyRing R) (now : Instant) (k : KeyRing R)
    (log : List (Spanned (sessions α))) : Prop where
  credentials : k.credentials = origin.credentials
  config : k.config = origin.config
  window : k.cooldown.window = origin.cooldown.window
  owned : ∀ key ∈ usedIn log, key ∈ Credential.unkeyed :: origin.credentials
  remembered : ∀ e ∈ log, ∀ key, Fails key e →
    e.answered + origin.cooldown.window.nanos ≤ now ∨
      ∃ m, e.answered ≤ m ∧ k.cooldown.failures.get? key.secret = some m
  explained : ∀ secret m, k.cooldown.failures.get? secret = some m →
    m ≤ now ∧ ∃ key, key.secret = secret ∧ Benched key m log

section Remembers

variable {origin k k' : KeyRing R} {now later : Instant} {log more : List (Spanned (sessions α))}

theorem Remembers.first (origin : KeyRing R) (now : Instant)
    (unused : origin.cooldown.failures = ∅) :
    Remembers origin now origin ([] : List (Spanned (sessions α))) := by
  refine ⟨rfl, rfl, rfl, nofun, nofun, ?_⟩
  intro secret m known
  rw [unused, Table.get?_empty] at known
  cases known

private theorem Remembers.owned_append (remembers : Remembers origin now k log)
    (owned : ∀ key ∈ usedIn more, key ∈ Credential.unkeyed :: origin.credentials) :
    ∀ key ∈ usedIn (log ++ more), key ∈ Credential.unkeyed :: origin.credentials := by
  intro key member
  rw [usedIn_append] at member
  exact (List.mem_append.mp member).elim (remembers.owned key) (owned key)

theorem Remembers.alike (remembers : Remembers origin now k log) (alike : Alike k k')
    (le : now ≤ later) (plain : ∀ e ∈ more, ∀ key, ¬ Fails key e ∧ ¬ Succeeds key e)
    (owned : ∀ key ∈ usedIn more, key ∈ Credential.unkeyed :: origin.credentials) :
    Remembers origin later k' (log ++ more) := by
  obtain ⟨l, rfl⟩ := alike
  refine ⟨remembers.credentials, remembers.config, remembers.window,
    remembers.owned_append owned, ?_, ?_⟩
  · intro e member key fails
    rcases List.mem_append.mp member with old | new
    · rcases remembers.remembered e old key fails with passed | known
      · exact .inl (Nat.le_trans passed le)
      · exact .inr known
    · exact absurd fails (plain e new key).1
  · intro secret m known
    obtain ⟨past, key, named, benched⟩ := remembers.explained secret m known
    refine ⟨Nat.le_trans past le, key, named, benched.append ?_⟩
    exact fun e member => (plain e member key).2

private theorem plain_of_quiet (quiet : ∀ e ∈ more, Quiet e.exchanged) :
    ∀ e ∈ more, ∀ key, ¬ Fails key e ∧ ¬ Succeeds key e := by
  intro e member key
  have unused := used?_of_quiet (quiet e member)
  constructor
  · intro fails
    cases unused.symm.trans fails.used
  · intro succeeds
    cases unused.symm.trans succeeds.used

theorem Remembers.quiet (remembers : Remembers origin now k log) (alike : Alike k k')
    (le : now ≤ later) (quiet : ∀ e ∈ more, Quiet e.exchanged) :
    Remembers origin later k' (log ++ more) := by
  refine remembers.alike alike le (plain_of_quiet quiet) ?_
  rw [usedIn_of_quiet quiet]
  exact nofun

variable {key : Credential} {asked answered marked : Instant}

private theorem Remembers.past (remembers : Remembers origin now k log) {e : Spanned (sessions α)}
    (member : e ∈ log) (fails : Fails key e) : e.answered ≤ now := by
  rcases remembers.remembered e member key fails with passed | ⟨m, since, known⟩
  · exact Nat.le_trans (Nat.le_add_right _ _) passed
  · exact Nat.le_trans since (remembers.explained key.secret m known).1

theorem Remembers.failed {cause : FetchError} (remembers : Remembers origin now k log)
    (owned : key ∈ Credential.unkeyed :: origin.credentials) (lasting : cause.retryClass ≠ .never)
    (asks : now ≤ asked) (answers : asked ≤ answered) (marks : answered ≤ marked) :
    Remembers origin marked (k.markFailed marked key.secret)
      (log ++ [called asked answered key (.error cause), blamed marked key.secret]) := by
  have le : now ≤ marked := Nat.le_trans asks (Nat.le_trans answers marks)
  have fails : Fails key (called asked answered key (.error cause) : Spanned (sessions α)) :=
    ⟨cause, lasting, rfl⟩
  have recorded : ∀ secret, (k.markFailed marked key.secret).cooldown.failures.get? secret =
      if secret = key.secret then some marked else k.cooldown.failures.get? secret :=
    fun secret => Table.get?_insert ..
  refine ⟨remembers.credentials, remembers.config, remembers.window,
    remembers.owned_append ?_, ?_, ?_⟩
  · intro key' member
    rw [List.mem_singleton.mp member]
    exact owned
  · intro e member key' fails'
    rw [recorded]
    rcases List.mem_append.mp member with old | new
    · by_cases same : key'.secret = key.secret
      · rw [if_pos same]
        exact .inr ⟨marked, Nat.le_trans (remembers.past old fails') le, rfl⟩
      · rw [if_neg same]
        exact (remembers.remembered e old key' fails').imp_left fun passed => Nat.le_trans passed le
    · rcases List.mem_cons.mp new with rfl | new
      · cases fails.used.symm.trans fails'.used
        rw [if_pos rfl]
        exact .inr ⟨marked, marks, rfl⟩
      · rw [List.mem_singleton.mp new] at fails'
        cases fails'.used
  · intro secret m known
    rw [recorded] at known
    by_cases same : secret = key.secret
    · rw [if_pos same] at known
      cases known
      exact ⟨Nat.le_refl _, key, same.symm, log, _, [], rfl, fails, nofun⟩
    · rw [if_neg same] at known
      obtain ⟨past, key', named, benched⟩ := remembers.explained secret m known
      refine ⟨Nat.le_trans past le, key', named, benched.append ?_⟩
      intro e member succeeds
      rcases List.mem_cons.mp member with rfl | member
      · cases fails.used.symm.trans succeeds.used
        exact same named.symm
      · rw [List.mem_singleton.mp member] at succeeds
        cases succeeds.used

theorem Remembers.succeeded {value : α} (remembers : Remembers origin now k log)
    (owned : key ∈ Credential.unkeyed :: origin.credentials)
    (fresh : ∀ e ∈ log, ∀ key', key'.secret = key.secret → Fails key' e →
      e.answered + origin.cooldown.window.nanos ≤ now)
    (asks : now ≤ asked) (answers : asked ≤ answered) (marks : answered ≤ marked) :
    Remembers origin marked (k.markSucceeded key.secret)
      (log ++ [called asked answered key (.ok value), cleared marked key.secret]) := by
  have le : now ≤ marked := Nat.le_trans asks (Nat.le_trans answers marks)
  have succeeds : Succeeds key (called asked answered key (.ok value) : Spanned (sessions α)) :=
    ⟨value, rfl⟩
  have forgotten : ∀ secret, (k.markSucceeded key.secret).cooldown.failures.get? secret =
      if secret = key.secret then none else k.cooldown.failures.get? secret :=
    fun secret => Table.get?_erase ..
  refine ⟨remembers.credentials, remembers.config, remembers.window,
    remembers.owned_append ?_, ?_, ?_⟩
  · intro key' member
    rw [List.mem_singleton.mp member]
    exact owned
  · intro e member key' fails
    rcases List.mem_append.mp member with old | new
    · by_cases same : key'.secret = key.secret
      · exact .inl (Nat.le_trans (fresh e old key' same fails) le)
      · rw [forgotten, if_neg same]
        exact (remembers.remembered e old key' fails).imp_left fun passed => Nat.le_trans passed le
    · rcases List.mem_cons.mp new with rfl | new
      · obtain ⟨cause, -, failed⟩ := fails
        cases failed
      · rw [List.mem_singleton.mp new] at fails
        cases fails.used
  · intro secret m known
    rw [forgotten] at known
    by_cases same : secret = key.secret
    · rw [if_pos same] at known
      cases known
    · rw [if_neg same] at known
      obtain ⟨past, key', named, benched⟩ := remembers.explained secret m known
      refine ⟨Nat.le_trans past le, key', named, benched.append ?_⟩
      intro e member succeeds'
      rcases List.mem_cons.mp member with rfl | member
      · cases succeeds.used.symm.trans succeeds'.used
        exact same named.symm
      · rw [List.mem_singleton.mp member] at succeeds'
        cases succeeds'.used

/-- Whatever failed with the secret of one of the credentials did so a window ago. -/
def Fresh (origin : KeyRing R) (begun : Instant) (keys : List Credential)
    (log : List (Spanned (sessions α))) : Prop :=
  ∀ key ∈ keys, ∀ e ∈ log, ∀ key', key'.secret = key.secret → Fails key' e →
    e.answered + origin.cooldown.window.nanos ≤ begun

private theorem Fresh.append {begun : Instant} {keys : List Credential}
    (fresh : Fresh origin begun (key :: keys) log)
    (spared : ∀ e ∈ more, ∀ key', Fails key' e → key' = key)
    (distinct : ((key :: keys).map Credential.secret).Nodup) : Fresh origin begun keys (log ++ more) := by
  intro key₂ member e logged key' same fails
  rcases List.mem_append.mp logged with old | new
  · exact fresh key₂ (List.mem_cons_of_mem _ member) e old key' same fails
  · have head : key.secret ∉ keys.map Credential.secret := (List.nodup_cons.mp distinct).1
    rw [spared e new key' fails] at same
    exact absurd (same ▸ List.mem_map_of_mem member) head

theorem Remembers.rotates {policy : RateLimit.Policy} {keys : List Credential} {begun : Instant}
    {r : Except FetchError α} (rotates : Rotates policy keys now k more r later k')
    (remembers : Remembers origin now k log) (began : begun ≤ now)
    (owned : ∀ key ∈ keys, key ∈ Credential.unkeyed :: origin.credentials)
    (distinct : (keys.map Credential.secret).Nodup) (fresh : Fresh origin begun keys log) :
    Remembers origin later k' (log ++ more) := by
  induction rotates generalizing log with
  | exhausted =>
    rw [List.append_nil]
    exact remembers
  | cancelled quiet le alike => exact remembers.quiet alike le quiet
  | skipped _ opened _ ih =>
    have passed := remembers.quiet opened.alike opened.le opened.quiet
    have later_fresh := fresh.append (fun e member key' fails =>
      absurd fails (plain_of_quiet opened.quiet e member key').1) distinct
    rw [← List.append_assoc]
    exact ih passed (Nat.le_trans began opened.le)
      (fun key member => owned key (List.mem_cons_of_mem _ member))
      (List.nodup_cons.mp distinct).2 later_fresh
  | @failed key keys _ _ asked answered marked _ _ _ _ opening_ _ cause _ opened lasting asks answers
      marks _ ih =>
    have passed := remembers.quiet opened.alike opened.le opened.quiet
    have blamed_ := passed.failed (owned key List.mem_cons_self) lasting asks answers marks
    have later_fresh : Fresh origin begun keys (log ++ (opening_ ++
        [called asked answered key (.error cause), blamed marked key.secret])) := by
      refine fresh.append ?_ distinct
      intro e member key' fails
      rcases List.mem_append.mp member with quiet | member
      · exact absurd fails (plain_of_quiet opened.quiet e quiet key').1
      · rcases List.mem_cons.mp member with rfl | member
        · cases fails.used
          rfl
        · rw [List.mem_singleton.mp member] at fails
          cases fails.used
    have le : begun ≤ marked := Nat.le_trans began (Nat.le_trans opened.le
      (Nat.le_trans asks (Nat.le_trans answers marks)))
    rw [← List.append_assoc] at later_fresh
    have rest := ih blamed_ le (fun key member => owned key (List.mem_cons_of_mem _ member))
      (List.nodup_cons.mp distinct).2 later_fresh
    simpa using rest
  | @gaveUp key keys _ _ asked answered _ _ _ cause opened never asks answers =>
    have passed := remembers.quiet opened.alike opened.le opened.quiet
    rw [← List.append_assoc]
    refine passed.alike (.refl _) (Nat.le_trans asks answers) ?_ ?_
    · intro e member key'
      rw [List.mem_singleton.mp member]
      constructor
      · rintro ⟨cause', lasting, same⟩
        cases same
        exact lasting never
      · rintro ⟨value, same⟩
        cases same
    · intro key' member
      rw [List.mem_singleton.mp member]
      exact owned key List.mem_cons_self
  | @succeeded key keys _ _ asked answered marked _ _ _ value opened asks answers marks =>
    have passed := remembers.quiet opened.alike opened.le opened.quiet
    rw [← List.append_assoc]
    refine passed.succeeded (owned key List.mem_cons_self) ?_ asks answers marks
    intro e member key' same fails
    rcases List.mem_append.mp member with old | new
    · refine Nat.le_trans (fresh key List.mem_cons_self e old key' same fails) ?_
      exact Nat.le_trans began opened.le
    · exact absurd fails (plain_of_quiet opened.quiet e new key').1

/-! ### One session -/

private theorem ordered_perm (k : KeyRing R) (fine : Bool) :
    ∃ l, (k.ordered fine).Perm l ∧ l.Sublist (Credential.unkeyed :: k.credentials) := by
  unfold ordered
  split
  · split
    · exact ⟨_, .refl _, List.Sublist.refl _⟩
    · exact ⟨_, List.perm_append_singleton _ _, List.Sublist.refl _⟩
  · exact ⟨_, .refl _, List.sublist_cons_self _ _⟩

theorem mem_of_ordered {k : KeyRing R} {fine : Bool} {key : Credential} (member : key ∈ k.ordered fine) :
    key ∈ Credential.unkeyed :: k.credentials := by
  obtain ⟨l, same, among⟩ := k.ordered_perm fine
  exact among.subset (same.subset member)

theorem nodup_ordered {k : KeyRing R} (fine : Bool)
    (distinct : ((Credential.unkeyed :: k.credentials).map Credential.secret).Nodup) :
    ((k.ordered fine).map Credential.secret).Nodup := by
  obtain ⟨l, same, among⟩ := k.ordered_perm fine
  exact (same.map Credential.secret).nodup_iff.mpr (distinct.sublist (among.map Credential.secret))

private theorem Remembers.ordered_eq (remembers : Remembers origin now k log) (fine : Bool) :
    k.ordered fine = origin.ordered fine := by
  unfold ordered
  rw [remembers.credentials, remembers.config]

variable {begun : Instant}

theorem mem_available_iff (k : KeyRing R) (fine : Bool) :
    key ∈ (k.available begun fine).1 ↔ key ∈ k.ordered fine ∧
      (k.cooldown.failures.get? key.secret = none ∨ k.cooldown.Stale begun key.secret) := by
  unfold available
  rw [Cooldown.fst_sift, List.mem_filter, Cooldown.available_iff]

private theorem Remembers.stale_iff (remembers : Remembers origin now k log) (le : now ≤ begun)
    {secret : String} {m : Instant} (known : k.cooldown.failures.get? secret = some m) :
    k.cooldown.Stale begun secret ↔ m + origin.cooldown.window.nanos ≤ begun := by
  have past : m ≤ begun := Nat.le_trans (remembers.explained secret m known).1 le
  rw [Cooldown.Stale, remembers.window, known]
  simp only [Option.some.injEq, exists_eq_left']
  rw [Nat.le_sub_iff_add_le past, Nat.add_comm]

private theorem Remembers.look (remembers : Remembers origin now k log) (le : now ≤ begun)
    (fine : Bool) (keys : List Credential) :
    Remembers origin begun (k.available begun fine).2 (log ++ [offered begun fine keys]) := by
  have forgets := Cooldown.forgets_sift begun (k.ordered fine) k.cooldown
  have plain : ∀ e ∈ [offered (α := α) begun fine keys], ∀ key, ¬ Fails key e ∧ ¬ Succeeds key e := by
    intro e member key
    rw [List.mem_singleton.mp member]
    constructor
    · intro fails
      cases fails.used
    · intro succeeds
      cases succeeds.used
  have waited := remembers.alike (.refl k) le plain nofun
  refine ⟨waited.credentials, waited.config, forgets.window.trans waited.window, waited.owned, ?_, ?_⟩
  · intro e member key fails
    rcases waited.remembered e member key fails with passed | ⟨m, since, known⟩
    · exact .inl passed
    rcases forgets.failures key.secret with same | ⟨-, stale⟩
    · exact .inr ⟨m, since, same.trans known⟩
    · have passed := (remembers.stale_iff le known).mp stale
      exact .inl (Nat.le_trans (Nat.add_le_add_right since _) passed)
  · intro secret m known
    rcases forgets.failures secret with same | ⟨gone, -⟩
    · exact waited.explained secret m (same.symm.trans known)
    · cases gone.symm.trans known

private theorem Remembers.fresh (remembers : Remembers origin now k log) (le : now ≤ begun)
    (fine : Bool) : Fresh origin begun (k.available begun fine).1 log := by
  intro key offered_ e member key' same fails
  rcases remembers.remembered e member key' fails with passed | ⟨m, since, known⟩
  · exact Nat.le_trans passed le
  · rw [same] at known
    rcases ((mem_available_iff k fine).mp offered_).2 with unknown | stale
    · cases unknown.symm.trans known
    · have passed := (remembers.stale_iff le known).mp stale
      exact Nat.le_trans (Nat.add_le_add_right since _) passed

/-- A session after others keeps off what is benched: its credentials are used once each, none of them
within the window after a failure, and what it was not offered has failed within the window. -/
structure Spares (origin : KeyRing R) (before log : List (Spanned (sessions α))) : Prop where
  once : (usedIn log).Nodup
  offers : ∃ begun fine keys rest, log = offered begun fine keys :: rest ∧
    (∀ key ∈ usedIn log, ∀ e ∈ before, Fails key e →
      e.answered + origin.cooldown.window.nanos ≤ begun) ∧
    ∀ key ∈ origin.ordered fine, key ∉ keys →
      ∃ m, Benched key m before ∧ begun < m + origin.cooldown.window.nanos

variable [Quantity R]

private theorem Remembers.session {policy : RateLimit.Policy} {fine : Bool} {r : Except FetchError α}
    (remembers : Remembers origin now k log)
    (distinct : ((Credential.unkeyed :: origin.credentials).map Credential.secret).Nodup)
    (elapses : (session policy fine).Elapses (serving R α) now k more r later k') :
    Remembers origin later k' (log ++ more) ∧ Spares origin log more := by
  obtain ⟨begun, rest, le, rfl, rotates⟩ := rotates_of_session elapses
  have tried : ∀ key ∈ (k.available begun fine).1, key ∈ origin.ordered fine := by
    intro key member
    rw [← remembers.ordered_eq fine]
    exact ((mem_available_iff k fine).mp member).1
  have separate : ((k.available begun fine).1.map Credential.secret).Nodup := by
    unfold available
    rw [Cooldown.fst_sift, remembers.ordered_eq fine]
    exact (nodup_ordered fine distinct).sublist (List.filter_sublist.map _)
  have used_sublist : (usedIn (offered begun fine (k.available begun fine).1 :: rest)).Sublist
      (k.available begun fine).1 := rotates.usedIn_sublist
  refine ⟨?_, ?_, begun, fine, _, rest, rfl, ?_, ?_⟩
  · have looked := remembers.look le fine (k.available begun fine).1
    have fresh : Fresh origin begun (k.available begun fine).1
        (log ++ [offered begun fine (k.available begun fine).1]) := by
      intro key offered_ e member key' same fails
      rcases List.mem_append.mp member with old | new
      · exact remembers.fresh le fine key offered_ e old key' same fails
      · rw [List.mem_singleton.mp new] at fails
        cases fails.used
    rw [List.append_cons]
    exact looked.rotates rotates (Nat.le_refl _) (fun key member => mem_of_ordered (tried key member))
      separate fresh
  · exact (separate.of_map _).sublist used_sublist
  · intro key member e logged fails
    exact remembers.fresh le fine key (used_sublist.subset member) e logged key rfl fails
  · intro key ordered_ missing
    rw [← remembers.ordered_eq fine] at ordered_
    have unavailable := fun seen => missing ((mem_available_iff k fine).mpr ⟨ordered_, seen⟩)
    cases known : k.cooldown.failures.get? key.secret with
    | none => exact absurd (.inl known) unavailable
    | some m =>
      obtain ⟨past, key', named, benched⟩ := remembers.explained key.secret m known
      have mine : key ∈ Credential.unkeyed :: origin.credentials := by
        rw [remembers.ordered_eq fine] at ordered_
        exact mem_of_ordered ordered_
      have other : key' ∈ Credential.unkeyed :: origin.credentials := by
        obtain ⟨before, e, after, rfl, fails, -⟩ := benched
        exact remembers.owned key' (mem_usedIn fails (by simp))
      rw [List.inj_on_of_nodup_map distinct other mine named] at benched
      refine ⟨m, benched, Nat.lt_of_not_le fun passed => unavailable (.inr ?_)⟩
      exact (remembers.stale_iff le known).mpr passed

end Remembers

/-! ### Many sessions -/

section Many

variable [Quantity R] {origin k' : KeyRing R} {now later : Instant}
  {logs : List (List (Spanned (sessions α)))}

theorem forward_serving : (serving R α).Forward :=
  Keys.selections.forward_service.sum
    (Keys.controls.forward_service.sum Service.forward_any)

def Session : Program (sessions α) (Except FetchError α) → Prop :=
  fun p => ∃ policy fine, p = session policy fine

private theorem remembers_of_series (unused : origin.cooldown.failures = ∅)
    (distinct : ((Credential.unkeyed :: origin.credentials).map Credential.secret).Nodup)
    (series : Series (serving R α) Session now origin logs later k') :
    Remembers origin later k' logs.flatten ∧
      ∀ before log after, logs = before ++ log :: after → Spares origin before.flatten log := by
  induction series with
  | none => exact ⟨.first origin now unused, by simp⟩
  | @next logs between later mid k' p log r before allowed elapses ih =>
    obtain ⟨policy, fine, rfl⟩ := allowed
    obtain ⟨remembers, spares⟩ := ih
    obtain ⟨remembers', spares'⟩ := remembers.session distinct elapses
    refine ⟨?_, forall_log_concat spares spares'⟩
    rw [List.flatten_append, List.flatten_singleton]
    exact remembers'

omit [Quantity R] in
private theorem Spares.failures {before log : List (Spanned (sessions α))}
    (spares : Spares origin before log) :
    log.Pairwise fun e e' => ∀ key, Fails key e → ¬ Fails key e' := by
  have once := List.pairwise_filterMap.mp spares.once
  refine once.imp ?_
  intro e e' apart key fails fails'
  exact apart key fails.used key fails'.used rfl

private theorem apart_of_series (unused : origin.cooldown.failures = ∅)
    (distinct : ((Credential.unkeyed :: origin.credentials).map Credential.secret).Nodup)
    (series : Series (serving R α) Session now origin logs later k') :
    logs.flatten.Pairwise fun e e' => ∀ key, Fails key e → Fails key e' →
      e.answered + origin.cooldown.window.nanos ≤ e'.answered := by
  induction series with
  | none => exact .nil
  | @next logs between later mid k' p log r before allowed elapses ih =>
    obtain ⟨policy, fine, rfl⟩ := allowed
    obtain ⟨remembers, -⟩ := remembers_of_series unused distinct before
    obtain ⟨-, spares⟩ := remembers.session distinct elapses
    have chronological := elapses.chronological forward_serving
    rw [List.flatten_append, List.flatten_singleton, List.pairwise_append]
    refine ⟨ih, ?_, ?_⟩
    · refine spares.failures.imp ?_
      intro e e' never key fails fails'
      exact absurd fails' (never key fails)
    · intro e earlier e' here key fails fails'
      obtain ⟨begun, fine', keys, rest, rfl, waits, -⟩ := spares.offers
      have passed := waits key (mem_usedIn fails' here) e earlier fails
      have since : begun ≤ e'.answered := by
        rcases List.mem_cons.mp here with rfl | here
        · cases fails'.used
        · have first := (List.pairwise_cons.mp chronological.ordered).1 e' here
          exact Nat.le_trans first (chronological.within e' (List.mem_cons_of_mem _ here)).2.1
      exact Nat.le_trans passed since

private theorem distinct_of_credentials {credentials : List Credential}
    (distinct : ((credentials.filter fun c => !c.isAnonymous).map Credential.secret).Nodup) :
    ((Credential.unkeyed :: keyed credentials).map Credential.secret).Nodup := by
  set own := credentials.filter fun c => !c.isAnonymous
  have usable : credentials.filter (fun c => !c.isAnonymous && !c.secret.isEmpty) =
      own.filter fun c => !c.secret.isEmpty := by
    rw [List.filter_filter]
    exact List.filter_congr fun c _ => Bool.and_comm _ _
  have among : ∀ key ∈ keyed credentials, key ∈ own ∧ key.secret ≠ "" := by
    intro key member
    simp only [keyed, usable, List.mem_flatMap, List.mem_filter] at member
    obtain ⟨kind, -, ⟨mine, named⟩, -⟩ := member
    exact ⟨mine, by simpa using named⟩
  have once : (keyed credentials).Nodup := by
    have own_once : (own.filter fun c => !c.secret.isEmpty).Nodup := (distinct.of_map _).filter _
    rw [keyed, usable, List.flatMap_cons, List.flatMap_singleton]
    refine (own_once.filter _).append (own_once.filter _) ?_
    intro key paid demo
    have is_paid := (List.mem_filter.mp paid).2
    have is_demo := (List.mem_filter.mp demo).2
    rw [eq_of_beq is_paid] at is_demo
    cases is_demo
  rw [List.map_cons, List.nodup_cons]
  constructor
  · intro member
    obtain ⟨key, mine, same⟩ := List.mem_map.mp member
    exact (among key mine).2 same
  · refine once.map_on ?_
    intro key mine key' mine' same
    exact List.inj_on_of_nodup_map distinct (among key mine).1 (among key' mine').1 same

end Many

/-- No credential is hammered, whatever its uses end with and whatever pauses there are: after a failure at
some time no session that begins before the end of the window uses it, its failures are a window apart, and
it is only ever unavailable within the window after a failure with no success since. Fetches one after the
other are such sessions. -/
theorem failures_apart [Quantity R] {credentials : List Credential} {config : Config}
    (distinct : ((credentials.filter fun c => !c.isAnonymous).map Credential.secret).Nodup)
    (now : Instant) :
    (ofCredentials credentials config : KeyRing R).cooldown.window.nanos =
      config.cooldownSecs.toNat * nanosPerSecond ∧
    (∀ (logs : List (List (Spanned (sessions α)))) later k',
      Series (serving R α) Session now (ofCredentials credentials config) logs later k' →
      (∀ before log after, logs = before ++ log :: after →
        Spares (ofCredentials credentials config : KeyRing R) before.flatten log) ∧
      logs.flatten.Pairwise fun e e' => ∀ key, Fails key e → Fails key e' →
        e.answered + config.cooldownSecs.toNat * nanosPerSecond ≤ e'.answered) ∧
    ∀ (logs : List (List (Spanned ApiClient.requests))) later (k' : KeyRing R),
      Series (ApiClient.surroundings R) (fun p => ∃ (c : ApiClient) (ids : List String), p = c.fetch ids)
        now (ofCredentials credentials config) logs later k' →
      ∃ sessions, Series (serving R Exchange.Response) Session now (ofCredentials credentials config)
          sessions later k' ∧
        List.Forall₂ (fun requests log => ∃ (c : ApiClient) (ids : List String),
          Carried (ApiClient.surroundings R) (c.carrySession ids) requests log) sessions
          (logs.filter fun log => !log.isEmpty) := by
  have window : (ofCredentials credentials config : KeyRing R).cooldown.window.nanos =
      config.cooldownSecs.toNat * nanosPerSecond := by
    have bounded := config.cooldownSecs.toNat_lt
    show min _ Duration.maxNanos = _
    refine Nat.min_eq_left ?_
    unfold Duration.maxNanos nanosPerSecond UInt64.size
    omega
  have separate := distinct_of_credentials distinct
  refine ⟨window, ?_, ?_⟩
  · intro logs later k' series
    rw [← window]
    exact ⟨(remembers_of_series rfl separate series).2, apart_of_series rfl separate series⟩
  · intro logs later k' series
    exact ApiClient.sessions_of_fetches series

def brief : KeyRing Rat := ofCredentials [⟨"p", .paid⟩] { cooldownSecs := 1 }

def skipping : Program (sessions Nat) (Except FetchError Nat) := session .skip false

def firstBrief : List (Spanned (sessions Nat)) × Except FetchError Nat × Instant × KeyRing Rat :=
  skipping.enact scripted [.error (.bodyRead ""), .ok 1] 0 brief

def secondBrief : List (Spanned (sessions Nat)) × Except FetchError Nat × Instant × KeyRing Rat :=
  skipping.enact scripted [.ok 2] 500000000 firstBrief.2.2.2

def thirdBrief : List (Spanned (sessions Nat)) × Except FetchError Nat × Instant × KeyRing Rat :=
  skipping.enact scripted [.error (.bodyRead "")] 1000000000 secondBrief.2.2.2

theorem failures_apart_brief :
    (([⟨"p", .paid⟩].filter fun c : Credential => !c.isAnonymous).map Credential.secret).Nodup ∧
    Series (serving Rat Nat) Session 0 brief [firstBrief.1, secondBrief.1, thirdBrief.1]
      thirdBrief.2.2.1 thirdBrief.2.2.2 ∧
    usedIn firstBrief.1 = [⟨"p", .paid⟩, Credential.unkeyed] ∧
    usedIn secondBrief.1 = [Credential.unkeyed] ∧
    usedIn thirdBrief.1 = [⟨"p", .paid⟩] ∧
    Spares brief [firstBrief.1, secondBrief.1].flatten thirdBrief.1 ∧
    [firstBrief.1, secondBrief.1, thirdBrief.1].flatten.Pairwise fun e e' => ∀ key, Fails key e →
      Fails key e' → e.answered + 1 * nanosPerSecond ≤ e'.answered := by
  have distinct : (([⟨"p", .paid⟩].filter fun c : Credential => !c.isAnonymous).map
      Credential.secret).Nodup := by decide +kernel
  have series : Series (serving Rat Nat) Session 0 brief [firstBrief.1, secondBrief.1, thirdBrief.1]
      thirdBrief.2.2.1 thirdBrief.2.2.2 := by
    have first := elapses_enact serving_scripted skipping [.error (.bodyRead ""), .ok 1]
      0 brief
    have second := elapses_enact serving_scripted skipping [.ok 2] 500000000
      firstBrief.2.2.2
    have third := elapses_enact serving_scripted skipping [.error (.bodyRead "")]
      1000000000 secondBrief.2.2.2
    have asked : secondBrief.1 ≠ [] ∧ thirdBrief.1 ≠ [] := ⟨List.cons_ne_nil _ _, List.cons_ne_nil _ _⟩
    have passed : firstBrief.2.2.1 ≤ 500000000 ∧ secondBrief.2.2.1 ≤ 1000000000 := by decide +kernel
    have allowed : Session skipping := ⟨.skip, false, rfl⟩
    have one := Series.next .none allowed first
    have two := Series.next one allowed (second.wait passed.1 asked.1)
    exact .next two allowed (third.wait passed.2 asked.2)
  obtain ⟨-, apart, -⟩ := @failures_apart Rat Nat _ [⟨"p", .paid⟩] { cooldownSecs := 1 } distinct 0
  obtain ⟨spares, failures⟩ := apart _ _ _ series
  exact ⟨distinct, series, by decide +kernel, by decide +kernel, by decide +kernel,
    spares [firstBrief.1, secondBrief.1] thirdBrief.1 [] rfl, failures⟩

end KeyRing

end MarketFeed
