import MarketFeed.Proofs.Program.Histories
/-!
What programs can ask for at all, whatever they are answered: every request on every way through the
program satisfies one predicate.
-/

set_option autoImplicit false
set_option relaxedAutoImplicit false

namespace MarketFeed.Program

variable {S T : Signature} {α β : Type} {P : S.Op → Prop} {Q : T.Op → Prop}

/-- Every request that the program can make satisfies `P`. -/
def Asks (P : S.Op → Prop) : Program S α → Prop
  | .done _ => True
  | .ask op next => P op ∧ ∀ r, (next r).Asks P

theorem asks_pure (a : α) : Asks P (pure a) := trivial

theorem asks_call (op : S.Op) (allowed : P op) : (call op).Asks P := ⟨allowed, fun _ => trivial⟩

theorem asks_any (p : Program S α) : p.Asks fun _ => True := by
  induction p with
  | done a => trivial
  | ask op next ih => exact ⟨trivial, ih⟩

theorem asks_ite {c : Prop} [Decidable c] {p q : Program S α} (yes : c → p.Asks P)
    (no : ¬ c → q.Asks P) : (if c then p else q).Asks P := by
  by_cases h : c
  · rw [if_pos h]
    exact yes h
  · rw [if_neg h]
    exact no h

theorem Asks.bind {p : Program S α} {f : α → Program S β} (first : p.Asks P)
    (second : ∀ a, (f a).Asks P) : (p.bind f).Asks P := by
  induction p with
  | done a => exact second a
  | ask op next ih => exact ⟨first.1, fun r => ih r (first.2 r)⟩

theorem Asks.interpret {carry : (op : S.Op) → Program T (S.Answer op)}
    (carried : ∀ op, P op → (carry op).Asks Q) {p : Program S α} (asks : p.Asks P) :
    (p.interpret carry).Asks Q := by
  induction p with
  | done a => trivial
  | ask op next ih => exact (carried op asks.1).bind fun r => ih r (asks.2 r)

theorem Asks.inSecond {R : (S.sum T).Op → Prop} {p : Program T α} (asks : p.Asks Q)
    (into : ∀ op, Q op → R (.inr op)) : (p.inSecond (S := S)).Asks R := by
  induction p with
  | done a => trivial
  | ask op next ih => exact ⟨into op asks.1, fun r => ih r (asks.2 r)⟩

theorem Asks.after {p q : Program S α} {h : List (Exchanged S)} (asks : p.Asks P) (after : After p h q) :
    q.Asks P := by
  induction after with
  | here p => exact asks
  | ask _ ih => exact ih (asks.2 _)

theorem Asks.history {p q : Program S α} {h : List (Exchanged S)} (asks : p.Asks P)
    (after : After p h q) : ∀ e ∈ h, P e.op := by
  induction after with
  | here p => nofun
  | ask _ ih => exact List.forall_mem_cons.mpr ⟨asks.1, ih (asks.2 _)⟩

end MarketFeed.Program
