import MarketFeed.Proofs.Simulation.Interleaving
/-!
Programs that take time. Surroundings serve a request that is made at some time: they tell which answers
it may get, when, and what becomes of the state. A run of a program among them is a log of requests, each
with the times at which it was made and answered; a series of runs has any pauses between them.
-/

set_option autoImplicit false
set_option relaxedAutoImplicit false

namespace MarketFeed

namespace Simulation

open Program

/-- A request with its answer, when it was made, and when the answer came. -/
structure Spanned (S : Signature) where
  asked : Instant
  answered : Instant
  exchanged : Exchanged S

def Spanned.inSecond {S T : Signature} (e : Spanned T) : Spanned (S.sum T) :=
  ⟨e.asked, e.answered, e.exchanged.inSecond⟩

/-- What surroundings may do: the answer of a request made at a point in time on some state, when it
comes, and the state that it leaves. -/
def Service (σ : Type) (S : Signature) : Type :=
  (op : S.Op) → Instant → σ → S.Answer op → Instant → σ → Prop

variable {σ ν α β : Type} {S T : Signature}

inductive Handler.Resumes (h : Handler σ S) (op : S.Op) :
    Instant → σ → S.Answer op → Instant → σ → Prop where
  | last {now later : Instant} {s : σ} {a : S.Answer op} (cancelled : Bool) (passed : now ≤ later)
      (given : (h.resume later cancelled op s).1.answer? = some a) :
      Resumes h op now s a later (h.resume later cancelled op s).2
  | again {now later ended : Instant} {s s' : σ} {a : S.Answer op} {until_ : Instant}
      (cancelled : Bool) (passed : now ≤ later)
      (waits : (h.resume later cancelled op s).1 = .wait until_)
      (rest : Resumes h op later (h.resume later cancelled op s).2 a ended s') :
      Resumes h op now s a ended s'

inductive Handler.Serves (h : Handler σ S) (op : S.Op) (now : Instant) (s : σ) :
    S.Answer op → Instant → σ → Prop where
  | atOnce {a : S.Answer op} (cancelled : Bool)
      (given : (h.start now cancelled op s).1.answer? = some a) :
      Serves h op now s a now (h.start now cancelled op s).2
  | waited {ended : Instant} {s' : σ} {a : S.Answer op} {until_ : Instant} (cancelled : Bool)
      (waits : (h.start now cancelled op s).1 = .wait until_)
      (rest : h.Resumes op now (h.start now cancelled op s).2 a ended s') :
      Serves h op now s a ended s'

def Handler.service (h : Handler σ S) : Service σ S := h.Serves

namespace Service

def sum (v : Service σ S) (w : Service σ T) : Service σ (S.sum T)
  | .inl op => v op
  | .inr op => w op

def any (σ : Type) (S : Signature) : Service σ S := fun _ now s _ later s' => now ≤ later ∧ s' = s

def Forward (v : Service σ S) : Prop :=
  ∀ ⦃op now s a later s'⦄, v op now s a later s' → now ≤ later

theorem forward_any : (any σ S).Forward := fun _ _ _ _ _ _ served => served.1

theorem Forward.sum {v : Service σ S} {w : Service σ T} (first : v.Forward) (second : w.Forward) :
    (v.sum w).Forward := by
  rintro (op | op) now s a later s' served
  · exact first served
  · exact second served

end Service

theorem Handler.Resumes.le {h : Handler σ S} {op : S.Op} {now later : Instant} {s s' : σ}
    {a : S.Answer op} (resumes : h.Resumes op now s a later s') : now ≤ later := by
  induction resumes with
  | last _ passed _ => exact passed
  | again _ passed _ _ ih => exact Nat.le_trans passed ih

theorem Handler.forward_service (h : Handler σ S) : h.service.Forward := by
  intro op now s a later s' served
  cases served with
  | atOnce => exact Nat.le_refl now
  | waited _ _ rest => exact rest.le

end Simulation

namespace Program

open Simulation

variable {σ ν α β : Type} {S T : Signature}

/-- `Elapses v p now s log a later s'`: from `now` and `s` on, asking and answered as in `log`, the program
ends with `a` at `later`, and leaves `s'`. -/
inductive Elapses (v : Service σ S) :
    Program S α → Instant → σ → List (Spanned S) → α → Instant → σ → Prop where
  | done (a : α) (now : Instant) (s : σ) : Elapses v (.done a) now s [] a now s
  | ask {op : S.Op} {next : S.Answer op → Program S α} {now asked answered later : Instant}
      {s s' s'' : σ} {r : S.Answer op} {log : List (Spanned S)} {a : α} (passed : now ≤ asked)
      (served : v op asked s r answered s') (rest : Elapses v (next r) answered s' log a later s'') :
      Elapses v (.ask op next) now s (⟨asked, answered, ⟨op, r⟩⟩ :: log) a later s''

section Elapses

variable {v : Service σ S} {now later : Instant} {s s' : σ} {log : List (Spanned S)}

theorem Elapses.runs {p : Program S α} {a : α} (elapses : p.Elapses v now s log a later s') :
    Runs p (log.map Spanned.exchanged) a := by
  induction elapses with
  | done a => exact .done a
  | ask _ _ _ ih => exact .ask ih

theorem Elapses.wait {p : Program S α} {a : α} {begun : Instant} (le : now ≤ begun) (asked : log ≠ [])
    (elapses : p.Elapses v begun s log a later s') : p.Elapses v now s log a later s' := by
  cases elapses with
  | done => exact absurd rfl asked
  | ask passed served rest => exact .ask (Nat.le_trans le passed) served rest

theorem elapses_pure {a b : α} (elapses : (pure a : Program S α).Elapses v now s log b later s') :
    log = [] ∧ b = a ∧ later = now ∧ s' = s := by
  cases elapses
  exact ⟨rfl, rfl, rfl, rfl⟩

theorem Elapses.eq_of_any {p : Program S α} {a : α}
    (elapses : p.Elapses (Service.any σ S) now s log a later s') : s' = s := by
  induction elapses with
  | done => rfl
  | ask _ served _ ih => exact ih.trans served.2

theorem elapses_call {op : S.Op} {r : S.Answer op}
    (elapses : (call op).Elapses v now s log r later s') :
    ∃ asked, now ≤ asked ∧ v op asked s r later s' ∧ log = [⟨asked, later, ⟨op, r⟩⟩] := by
  cases elapses with
  | ask passed served rest =>
    cases rest
    exact ⟨_, passed, served, rfl⟩

theorem elapses_bind {p : Program S α} {f : α → Program S β} {b : β}
    (elapses : (p.bind f).Elapses v now s log b later s') :
    ∃ k l a between mid, log = k ++ l ∧ p.Elapses v now s k a between mid ∧
      (f a).Elapses v between mid l b later s' := by
  induction p generalizing now s log with
  | done a => exact ⟨[], log, a, now, s, rfl, .done a now s, elapses⟩
  | ask op next ih =>
    cases elapses with
    | ask passed served rest =>
      obtain ⟨k, l, a, between, mid, rfl, first, second⟩ := ih _ rest
      exact ⟨_ :: k, l, a, between, mid, rfl, .ask passed served first, second⟩

theorem elapses_call_bind (op : S.Op) {f : S.Answer op → Program S β} {b : β}
    (elapses : ((call op).bind f).Elapses v now s log b later s') :
    ∃ asked answered r mid k, log = ⟨asked, answered, ⟨op, r⟩⟩ :: k ∧ now ≤ asked ∧
      v op asked s r answered mid ∧ (f r).Elapses v answered mid k b later s' := by
  cases elapses with
  | ask passed served rest => exact ⟨_, _, _, _, _, rfl, passed, served, rest⟩

theorem elapses_inSecond {w : Service σ T} {p : Program T α} {a : α} {log : List (Spanned (S.sum T))}
    (elapses : (p.inSecond (S := S)).Elapses (v.sum w) now s log a later s') :
    ∃ k, log = k.map .inSecond ∧ p.Elapses w now s k a later s' := by
  induction p generalizing now s log with
  | done b =>
    cases elapses
    exact ⟨[], rfl, .done ..⟩
  | ask op next ih =>
    cases elapses with
    | ask passed served rest =>
      obtain ⟨k, rfl, elapses⟩ := ih _ rest
      exact ⟨_ :: k, rfl, .ask passed served elapses⟩

end Elapses

structure Chronological (now later : Instant) (log : List (Spanned S)) : Prop where
  le : now ≤ later
  within : ∀ e ∈ log, now ≤ e.asked ∧ e.asked ≤ e.answered ∧ e.answered ≤ later
  ordered : log.Pairwise fun e e' => e.answered ≤ e'.asked

theorem Chronological.append {now between later : Instant} {log more : List (Spanned S)}
    (first : Chronological now between log) (second : Chronological between later more) :
    Chronological now later (log ++ more) := by
  refine ⟨Nat.le_trans first.le second.le, ?_, ?_⟩
  · intro e member
    rcases List.mem_append.mp member with old | new
    · obtain ⟨after, spans, before⟩ := first.within e old
      exact ⟨after, spans, Nat.le_trans before second.le⟩
    · obtain ⟨after, rest⟩ := second.within e new
      exact ⟨Nat.le_trans first.le after, rest⟩
  · refine List.pairwise_append.mpr ⟨first.ordered, second.ordered, ?_⟩
    intro e old e' new
    exact Nat.le_trans (first.within e old).2.2 (second.within e' new).1

theorem Elapses.chronological {v : Service σ S} (forward : v.Forward) {p : Program S α}
    {now later : Instant} {s s' : σ} {log : List (Spanned S)} {a : α}
    (elapses : p.Elapses v now s log a later s') : Chronological now later log := by
  induction elapses with
  | done a now s => exact ⟨Nat.le_refl now, nofun, .nil⟩
  | @ask op next now asked answered later s s' s'' r log a passed served rest ih =>
    have spans : asked ≤ answered := forward served
    have one : Chronological now answered [(⟨asked, answered, ⟨op, r⟩⟩ : Spanned S)] := by
      refine ⟨Nat.le_trans passed spans, ?_, List.pairwise_singleton _ _⟩
      intro e member
      rw [List.mem_singleton.mp member]
      exact ⟨passed, spans, Nat.le_refl _⟩
    exact one.append ih

/-- What waiting and each service of a request keep, a run keeps, along with notes of its requests. -/
theorem Elapses.keeps {v : Service σ S} {I : Instant → σ → ν → Prop} {note : ν → Spanned S → ν}
    (waits : ∀ {now later s n}, now ≤ later → I now s n → I later s n)
    (step : ∀ {op now s r later s' n}, v op now s r later s' → I now s n →
      I later s' (note n ⟨now, later, ⟨op, r⟩⟩))
    {p : Program S α} {now later : Instant} {s s' : σ} {log : List (Spanned S)} {a : α}
    (elapses : p.Elapses v now s log a later s') {n : ν} (start : I now s n) :
    I later s' (log.foldl note n) := by
  induction elapses generalizing n with
  | done => exact start
  | ask passed served _ ih => exact ih (step served (waits passed start))

/-! ### Requests that programs carry out -/

/-- `Carried w carry asked log`: one after the other the requests of `asked` were carried out, each by its
program in its time, and all that was asked for it stands together in `log`. -/
inductive Carried (w : Service σ T) (carry : (op : S.Op) → Program T (S.Answer op)) :
    List (Spanned S) → List (Spanned T) → Prop where
  | nil : Carried w carry [] []
  | cons {op : S.Op} {now asked answered : Instant} {s s' : σ} {r : S.Answer op}
      {part log : List (Spanned T)} {requests : List (Spanned S)}
      (done : (carry op).Elapses w now s part r answered s') (rest : Carried w carry requests log) :
      Carried w carry (⟨asked, answered, ⟨op, r⟩⟩ :: requests) (part ++ log)

theorem Carried.elapses {w : Service σ T} {carry : (op : S.Op) → Program T (S.Answer op)}
    {requests : List (Spanned S)} {log : List (Spanned T)} (carried : Carried w carry requests log) :
    ∀ e ∈ requests, ∃ begun s part s',
      (carry e.exchanged.op).Elapses w begun s part e.exchanged.answer e.answered s' := by
  induction carried with
  | nil => exact nofun
  | cons done _ ih => exact List.forall_mem_cons.mpr ⟨⟨_, _, _, _, done⟩, ih⟩

theorem carried_append {w : Service σ T} {carry : (op : S.Op) → Program T (S.Answer op)}
    {more : List (Spanned S)} {log : List (Spanned T)} (requests : List (Spanned S))
    (carried : Carried w carry (requests ++ more) log) :
    ∃ k l, log = k ++ l ∧ Carried w carry requests k ∧ Carried w carry more l := by
  induction requests generalizing log with
  | nil => exact ⟨[], log, rfl, .nil, carried⟩
  | cons e requests ih =>
    cases carried with
    | @cons _ _ _ _ _ _ _ part _ _ done rest =>
      obtain ⟨k, l, rfl, first, second⟩ := ih rest
      exact ⟨part ++ k, l, (List.append_assoc ..).symm, .cons done first, second⟩

/-- A run of a program whose requests are carried out by others is a run of the program, where it is
served as those programs serve it. -/
theorem elapses_interpret {v : Service σ S} {w : Service σ T}
    {carry : (op : S.Op) → Program T (S.Answer op)}
    (serves : ∀ {op now s log r later s'}, (carry op).Elapses w now s log r later s' →
      ∃ asked, now ≤ asked ∧ v op asked s r later s')
    {p : Program S α} {now later : Instant} {s s' : σ} {log : List (Spanned T)} {a : α}
    (elapses : (p.interpret carry).Elapses w now s log a later s') :
    ∃ requests, p.Elapses v now s requests a later s' ∧ Carried w carry requests log := by
  induction p generalizing now s log with
  | done b =>
    cases elapses
    exact ⟨[], .done .., .nil⟩
  | ask op next ih =>
    obtain ⟨part, log, r, between, mid, rfl, done, rest⟩ := elapses_bind elapses
    obtain ⟨requests, elapses, carried⟩ := ih r rest
    obtain ⟨asked, passed, served⟩ := serves done
    exact ⟨_, .ask passed served elapses, .cons done carried⟩

/-! ### Runs in surroundings that tell what they do -/

/-- The log of a program in surroundings that serve each request in one way, its result, and the time
and the state at its end. -/
def enact (serve : ν → (op : S.Op) → Instant → σ → ν × S.Answer op × Instant × σ) :
    Program S α → ν → Instant → σ → List (Spanned S) × α × Instant × σ
  | .done a, _, now, s => ([], a, now, s)
  | .ask op next, n, now, s =>
    let r := serve n op now s
    let rest := (next r.2.1).enact serve r.1 r.2.2.1 r.2.2.2
    (⟨now, r.2.2.1, ⟨op, r.2.1⟩⟩ :: rest.1, rest.2)

theorem elapses_enact {v : Service σ S}
    {serve : ν → (op : S.Op) → Instant → σ → ν × S.Answer op × Instant × σ}
    (serves : ∀ n op now s, v op now s (serve n op now s).2.1 (serve n op now s).2.2.1
      (serve n op now s).2.2.2) (p : Program S α) (n : ν) (now : Instant) (s : σ) :
    p.Elapses v now s (p.enact serve n now s).1 (p.enact serve n now s).2.1
      (p.enact serve n now s).2.2.1 (p.enact serve n now s).2.2.2 := by
  induction p generalizing n now s with
  | done a => exact .done a now s
  | ask op next ih => exact .ask (Nat.le_refl now) (serves n op now s) (ih ..)

end Program

namespace Simulation

open Program

variable {σ ν α : Type} {S : Signature}

/-- `Series v may now s logs later s'`: some of the programs that may be run were run one after the other
with any pauses between them, each with one of the logs. -/
inductive Series (v : Service σ S) (may : Program S α → Prop) (now : Instant) (s : σ) :
    List (List (Spanned S)) → Instant → σ → Prop where
  | none : Series v may now s [] now s
  | next {logs : List (List (Spanned S))} {between later : Instant} {mid s' : σ} {p : Program S α}
      {log : List (Spanned S)} {a : α} (before : Series v may now s logs between mid) (allowed : may p)
      (elapses : p.Elapses v between mid log a later s') :
      Series v may now s (logs ++ [log]) later s'

theorem Series.keeps {v : Service σ S} {may : Program S α → Prop} {I : Instant → σ → ν → Prop}
    {note : ν → Spanned S → ν} (waits : ∀ {now later s n}, now ≤ later → I now s n → I later s n)
    (step : ∀ {op now s r later s' n}, v op now s r later s' → I now s n →
      I later s' (note n ⟨now, later, ⟨op, r⟩⟩))
    {now later : Instant} {s s' : σ} {logs : List (List (Spanned S))}
    (series : Series v may now s logs later s') {n : ν} (start : I now s n) :
    I later s' (logs.flatten.foldl note n) := by
  induction series with
  | none => exact start
  | next _ _ elapses ih =>
    rw [List.flatten_append, List.flatten_singleton, List.foldl_append]
    exact elapses.keeps (I := I) waits step ih

theorem forall_log_concat {P : List (Spanned S) → List (Spanned S) → Prop}
    {logs : List (List (Spanned S))} {log : List (Spanned S)}
    (earlier : ∀ before l after, logs = before ++ l :: after → P before.flatten l)
    (last : P logs.flatten log) :
    ∀ before l after, logs ++ [log] = before ++ l :: after → P before.flatten l := by
  intro before l after same
  rcases List.eq_nil_or_concat after with rfl | ⟨after, l', rfl⟩
  · obtain ⟨rfl, alone⟩ := List.append_inj' same rfl
    cases alone
    exact last
  · refine earlier before l after ?_
    rw [List.concat_eq_append, ← List.cons_append, ← List.append_assoc] at same
    exact (List.append_inj' same rfl).1

end Simulation

end MarketFeed
