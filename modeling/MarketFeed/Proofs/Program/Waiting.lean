import MarketFeed.Proofs.Program.Histories
/-!
Programs that heed their token. Some requests are waits, and a wait ends early with an answer of its
own if the token of the one who asks is cancelled. A program heeds its token if such an answer ends it
at once, with nothing asked afterwards.
-/

set_option autoImplicit false
set_option relaxedAutoImplicit false

namespace MarketFeed

/-- Which requests are waits, and the answer that ends each of them when the token is cancelled. -/
def Waits (S : Signature) := (op : S.Op) → Option (S.Answer op)

def Waits.sum {S T : Signature} (v : Waits S) (w : Waits T) : Waits (S.sum T)
  | .inl op => v op
  | .inr op => w op

def Waits.none (S : Signature) : Waits S := fun _ => Option.none

namespace Program

variable {S T U : Signature} {α β : Type}

/-- Wherever the program waits, a cancellation ends it at once with a result that satisfies `stop`. -/
def Heeds (w : Waits S) (stop : α → Prop) : Program S α → Prop
  | .done _ => True
  | .ask op next =>
    (∀ a, w op = some a → ∃ r, next a = .done r ∧ stop r) ∧ ∀ r, Heeds w stop (next r)

section Heeds

variable {w : Waits S} {stop : α → Prop}

theorem heeds_pure (a : α) : Heeds w stop (pure a) := trivial

theorem heeds_call (op : S.Op) {stop : S.Answer op → Prop} (h : ∀ a, w op = some a → stop a) :
    Heeds w stop (call op) := ⟨fun a waited => ⟨a, rfl, h a waited⟩, fun _ => trivial⟩

theorem heeds_wait (op : S.Op) {b : S.Answer op} (waits : w op = some b) :
    Heeds w (· = b) (call op) :=
  heeds_call op fun _ waited => (Option.some.inj (waits.symm.trans waited)).symm

theorem heeds_step (op : S.Op) (atOnce : w op = none) : Heeds w (fun _ => False) (call op) :=
  heeds_call op fun _ waited => nomatch atOnce.symm.trans waited

theorem Heeds.mono {stop' : α → Prop} {p : Program S α} (h : p.Heeds w stop)
    (weaken : ∀ a, stop a → stop' a) : p.Heeds w stop' := by
  induction p with
  | done a => trivial
  | ask op next ih =>
    refine ⟨fun a waited => ?_, fun r => ih r (h.2 r)⟩
    obtain ⟨r, ended, stopped⟩ := h.1 a waited
    exact ⟨r, ended, weaken r stopped⟩

theorem Heeds.bind {stop' : β → Prop} {p : Program S α} {f : α → Program S β}
    (first : p.Heeds w stop) (cut : ∀ a, stop a → ∃ b, f a = .done b ∧ stop' b)
    (second : ∀ a, (f a).Heeds w stop') : (p.bind f).Heeds w stop' := by
  induction p with
  | done a => exact second a
  | ask op next ih =>
    refine ⟨fun a waited => ?_, fun r => ih r (first.2 r)⟩
    obtain ⟨r, ended, stopped⟩ := first.1 a waited
    obtain ⟨b, done, stopped'⟩ := cut r stopped
    refine ⟨b, ?_, stopped'⟩
    show (next a).bind f = .done b
    rw [ended]
    exact done

theorem Heeds.andThen {stop' : β → Prop} {p : Program S α} {f : α → Program S β}
    (first : p.Heeds w fun _ => False) (second : ∀ a, (f a).Heeds w stop') :
    (p.bind f).Heeds w stop' :=
  first.bind (fun _ never => never.elim) second

/-- Waits that are carried out by programs with waits of their own: a stopped program answers the wait
as its cancellation would. -/
theorem Heeds.interpret {w' : Waits T} {carry : (op : S.Op) → Program T (S.Answer op)}
    {p : Program S α} (heeds : p.Heeds w stop)
    (carried : ∀ op, (carry op).Heeds w' fun r => w op = some r) :
    (p.interpret carry).Heeds w' stop := by
  induction p with
  | done a => trivial
  | ask op next ih =>
    refine (carried op).bind (fun a waited => ?_) fun r => ih r (heeds.2 r)
    obtain ⟨r, ended, stopped⟩ := heeds.1 a waited
    refine ⟨r, ?_, stopped⟩
    rw [ended]
    rfl

theorem Heeds.inSecond (v : Waits T) {p : Program S α} (heeds : p.Heeds w stop) :
    (p.inSecond (S := T)).Heeds (v.sum w) stop := by
  induction p with
  | done a => trivial
  | ask op next ih =>
    refine ⟨fun a waited => ?_, fun r => ih r (heeds.2 r)⟩
    obtain ⟨r, ended, stopped⟩ := heeds.1 a waited
    exact ⟨r, congrArg (lift (T := T.sum S) .inr fun _ r => r) ended, stopped⟩

theorem Heeds.interpretSecond {v : Waits T} {u : Waits U} {p : Program (S.sum T) α}
    {carry : (op : T.Op) → Program U (T.Answer op)} (heeds : p.Heeds (w.sum v) stop)
    (carried : ∀ op, (carry op).Heeds u fun r => v op = some r) :
    (p.interpretSecond carry).Heeds (w.sum u) stop := by
  refine heeds.interpret fun op => ?_
  cases op with
  | inl op => exact heeds_call (S := S.sum U) (.inl op) fun a waited => waited
  | inr op => exact (carried op).inSecond w

theorem Heeds.after {p q : Program S α} {history : List (Exchanged S)} (heeds : p.Heeds w stop)
    (after : After p history q) : q.Heeds w stop := by
  induction after with
  | here p => exact heeds
  | ask _ ih => exact ih (heeds.2 _)

end Heeds

end Program

end MarketFeed
