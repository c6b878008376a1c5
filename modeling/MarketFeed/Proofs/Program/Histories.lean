import MarketFeed.Program
/-!
What programs do over their histories. `After` follows a program part of the way, and `Obeys` is the
logic in which programs are specified: which requests may be made after which history, and what holds
of the history and the result at the end, whatever the answers were.
-/

set_option autoImplicit false
set_option relaxedAutoImplicit false

namespace MarketFeed.Program

variable {S T : Signature} {α β : Type}

theorem bind_eq (p : Program S α) (f : α → Program S β) : (p >>= f) = p.bind f := rfl

theorem bind_done (p : Program S α) : p.bind .done = p := by
  induction p with
  | done a => rfl
  | ask op next ih => exact congrArg (Program.ask op) (funext ih)

theorem bind_assoc {γ : Type} (p : Program S α) (f : α → Program S β) (g : β → Program S γ) :
    (p.bind f).bind g = p.bind fun a => (f a).bind g := by
  induction p with
  | done a => rfl
  | ask op next ih => exact congrArg (Program.ask op) (funext ih)

theorem interpret_bind (carry : (op : S.Op) → Program T (S.Answer op)) (p : Program S α)
    (f : α → Program S β) :
    (p.bind f).interpret carry = (p.interpret carry).bind fun a => (f a).interpret carry := by
  induction p with
  | done a => rfl
  | ask op next ih =>
    show (carry op).bind (fun r => ((next r).bind f).interpret carry) = _
    rw [funext ih]
    exact (bind_assoc _ _ _).symm

theorem interpret_call (carry : (op : S.Op) → Program T (S.Answer op)) (op : S.Op) :
    (call op).interpret carry = carry op := bind_done (carry op)

/-- `After p history q`: asking and answered as in `history`, the program `p` has become `q`. -/
inductive After : Program S α → List (Exchanged S) → Program S α → Prop where
  | here (p : Program S α) : After p [] p
  | ask {op : S.Op} {next : S.Answer op → Program S α} {r : S.Answer op}
      {history : List (Exchanged S)} {q : Program S α} (h : After (next r) history q) :
      After (.ask op next) (⟨op, r⟩ :: history) q

theorem After.trans {p q r : Program S α} {h k : List (Exchanged S)} (first : After p h q)
    (second : After q k r) : After p (h ++ k) r := by
  induction first with
  | here p => exact second
  | ask _ ih => exact .ask (ih second)

theorem After.cut {p q : Program S α} {h k : List (Exchanged S)} {e : Exchanged S}
    (after : After p (h ++ e :: k) q) :
    ∃ next, After p h (.ask e.op next) ∧ After (next e.answer) k q := by
  induction h generalizing p with
  | nil =>
    cases after with
    | ask rest => exact ⟨_, .here _, rest⟩
  | cons first h ih =>
    cases after with
    | ask rest =>
      obtain ⟨next, before, later⟩ := ih rest
      exact ⟨next, .ask before, later⟩

theorem runs_iff_after {p : Program S α} {h : List (Exchanged S)} {a : α} :
    Runs p h a ↔ After p h (.done a) := by
  constructor
  · intro runs
    induction runs with
    | done a => exact .here _
    | ask _ ih => exact .ask ih
  · intro after
    generalize hq : (Program.done a : Program S α) = q at after
    induction after with
    | here p => rw [← hq]; exact .done a
    | ask _ ih => exact .ask (ih hq)

theorem runs_pure {a b : α} {h : List (Exchanged S)} (runs : Runs (pure a) h b) :
    h = [] ∧ b = a := by
  cases runs
  exact ⟨rfl, rfl⟩

theorem runs_call {op : S.Op} {h : List (Exchanged S)} {r : S.Answer op}
    (runs : Runs (call op) h r) : h = [⟨op, r⟩] := by
  cases runs with
  | ask rest =>
    cases rest
    rfl

theorem runs_bind {p : Program S α} {f : α → Program S β} {h : List (Exchanged S)} {b : β}
    (runs : Runs (p.bind f) h b) :
    ∃ k l a, h = k ++ l ∧ Runs p k a ∧ Runs (f a) l b := by
  induction p generalizing h with
  | done a => exact ⟨[], h, a, rfl, .done a, runs⟩
  | ask op next ih =>
    cases runs with
    | ask rest =>
      obtain ⟨k, l, a, rfl, first, later⟩ := ih _ rest
      exact ⟨_ :: k, l, a, rfl, .ask first, later⟩

theorem runs_call_bind (op : S.Op) {f : S.Answer op → Program S β} {h : List (Exchanged S)} {b : β}
    (runs : Runs ((call op).bind f) h b) : ∃ r k, h = ⟨op, r⟩ :: k ∧ Runs (f r) k b := by
  obtain ⟨_, k, r, rfl, asked, later⟩ := runs_bind runs
  cases runs_call asked
  exact ⟨r, k, rfl, later⟩

theorem after_ask {op : S.Op} {next : S.Answer op → Program S α} {h : List (Exchanged S)}
    {q : Program S α} (after : After (.ask op next) h q) :
    h = [] ∧ q = .ask op next ∨ ∃ r k, h = ⟨op, r⟩ :: k ∧ After (next r) k q := by
  cases after with
  | here => exact .inl ⟨rfl, rfl⟩
  | ask rest => exact .inr ⟨_, _, rfl, rest⟩

/-- Where each request has one answer at most, a program has one history and one result. -/
theorem runs_unique {answer? : (op : S.Op) → Option (S.Answer op)} {p : Program S α}
    {h k : List (Exchanged S)} {a b : α} (runs : Runs p h a)
    (answered : ∀ e ∈ h, answer? e.op = some e.answer) (runs' : Runs p k b)
    (answered' : ∀ e ∈ k, answer? e.op = some e.answer) : h = k ∧ a = b := by
  induction runs generalizing k with
  | done a =>
    cases runs'
    exact ⟨rfl, rfl⟩
  | @ask op next r history a rest ih =>
    cases runs' with
    | @ask _ _ r' k _ rest' =>
      have ⟨first, later⟩ := List.forall_mem_cons.mp answered
      have ⟨first', later'⟩ := List.forall_mem_cons.mp answered'
      cases Option.some.inj (first.symm.trans first')
      obtain ⟨rfl, rfl⟩ := ih later rest' later'
      exact ⟨rfl, rfl⟩

def recorded {σ : Type} (answer : σ → (op : S.Op) → σ × S.Answer op) :
    Program S α → σ → List (Exchanged S) × α
  | .done a, _ => ([], a)
  | .ask op next, s =>
    let rest := (next (answer s op).2).recorded answer (answer s op).1
    (⟨op, (answer s op).2⟩ :: rest.1, rest.2)

theorem runs_recorded {σ : Type} (answer : σ → (op : S.Op) → σ × S.Answer op) (p : Program S α)
    (s : σ) : Runs p (p.recorded answer s).1 (p.recorded answer s).2 := by
  induction p generalizing s with
  | done a => exact .done a
  | ask op next ih => exact .ask (ih _ _)

theorem answered_of_recorded {σ : Type} {answer : σ → (op : S.Op) → σ × S.Answer op}
    {p : Program S α} {s : σ} :
    ∀ e ∈ (p.recorded answer s).1, ∃ s', e.answer = (answer s' e.op).2 := by
  induction p generalizing s with
  | done a => nofun
  | ask op next ih => exact List.forall_mem_cons.mpr ⟨⟨s, rfl⟩, ih _⟩

/-! ### The logic of histories -/

/-- From `history` on, each request satisfies `rule` after what was asked before it, and at the end
`promise` holds of all that was asked and the result. -/
def Obeys (rule : List (Exchanged S) → S.Op → Prop) (promise : List (Exchanged S) → α → Prop) :
    List (Exchanged S) → Program S α → Prop
  | history, .done a => promise history a
  | history, .ask op next =>
    rule history op ∧ ∀ r, Obeys rule promise (history ++ [⟨op, r⟩]) (next r)

section Obeys

variable {rule : List (Exchanged S) → S.Op → Prop} {promise : List (Exchanged S) → α → Prop}
  {history : List (Exchanged S)}

theorem obeys_pure {a : α} (h : promise history a) : Obeys rule promise history (pure a) := h

theorem obeys_call {op : S.Op} {promise : List (Exchanged S) → S.Answer op → Prop}
    (allowed : rule history op) (h : ∀ r, promise (history ++ [⟨op, r⟩]) r) :
    Obeys rule promise history (call op) := ⟨allowed, h⟩

theorem obeys_any (p : Program S α) : Obeys (fun _ _ => True) (fun _ _ => True) history p := by
  induction p generalizing history with
  | done a => trivial
  | ask op next ih => exact ⟨trivial, fun r => ih r⟩

theorem obeys_asked (op : S.Op) (allowed : rule history op) :
    Obeys rule (fun k r => k = history ++ [⟨op, r⟩]) history (call op) :=
  obeys_call allowed fun _ => rfl

theorem obeys_ite {c : Prop} [Decidable c] {p q : Program S α}
    (yes : c → Obeys rule promise history p) (no : ¬ c → Obeys rule promise history q) :
    Obeys rule promise history (if c then p else q) := by
  by_cases h : c
  · rw [if_pos h]
    exact yes h
  · rw [if_neg h]
    exact no h

theorem Obeys.mono {weaker : List (Exchanged S) → α → Prop} {p : Program S α}
    (h : Obeys rule promise history p) (weaken : ∀ k a, promise k a → weaker k a) :
    Obeys rule weaker history p := by
  induction p generalizing history with
  | done a => exact weaken _ _ h
  | ask op next ih => exact ⟨h.1, fun r => ih r (h.2 r)⟩

theorem Obeys.bind {between : List (Exchanged S) → α → Prop} {promise : List (Exchanged S) → β → Prop}
    {p : Program S α} {f : α → Program S β} (first : Obeys rule between history p)
    (second : ∀ k a, between k a → Obeys rule promise k (f a)) :
    Obeys rule promise history (p.bind f) := by
  induction p generalizing history with
  | done a => exact second _ _ first
  | ask op next ih => exact ⟨first.1, fun r => ih r (first.2 r)⟩

theorem Obeys.extends {p : Program S α} (h : Obeys rule promise history p) :
    Obeys rule (fun k a => history <+: k ∧ promise k a) history p := by
  induction p generalizing history with
  | done a => exact ⟨List.prefix_rfl, h⟩
  | ask op next ih =>
    refine ⟨h.1, fun r => (ih r (h.2 r)).mono fun k a kept => ⟨?_, kept.2⟩⟩
    exact (List.prefix_append _ _).trans kept.1

theorem Obeys.after {p q : Program S α} {k : List (Exchanged S)} (h : Obeys rule promise history p)
    (after : After p k q) : Obeys rule promise (history ++ k) q := by
  induction after generalizing history with
  | here p => rw [List.append_nil]; exact h
  | @ask op next r k q after ih =>
    have rest := ih (h.2 r)
    rw [List.append_assoc] at rest
    exact rest

theorem Obeys.runs {p : Program S α} {k : List (Exchanged S)} {a : α}
    (h : Obeys rule promise history p) (runs : Runs p k a) : promise (history ++ k) a :=
  h.after (runs_iff_after.1 runs)

end Obeys

/-- Requests carried out by programs of their own: `related` holds between what was asked and what
was asked instead, and each carrying out keeps it. -/
theorem Obeys.interpret {rule : List (Exchanged S) → S.Op → Prop}
    {promise : List (Exchanged S) → α → Prop} {rule' : List (Exchanged T) → T.Op → Prop}
    {promise' : List (Exchanged T) → α → Prop}
    {related : List (Exchanged S) → List (Exchanged T) → Prop}
    {carry : (op : S.Op) → Program T (S.Answer op)}
    (carried : ∀ h k op, related h k → rule h op →
      Obeys rule' (fun k' r => related (h ++ [⟨op, r⟩]) k') k (carry op))
    (ended : ∀ h k a, related h k → promise h a → promise' k a)
    {p : Program S α} {h : List (Exchanged S)} {k : List (Exchanged T)}
    (obeys : Obeys rule promise h p) (start : related h k) :
    Obeys rule' promise' k (p.interpret carry) := by
  induction p generalizing h k with
  | done a => exact ended h k a start obeys
  | ask op next ih =>
    exact (carried h k op start obeys.1).bind fun k' r related' => ih r (obeys.2 r) related'

def Exchanged.inSecond (e : Exchanged T) : Exchanged (S.sum T) := ⟨.inr e.op, e.answer⟩

theorem runs_inSecond {p : Program T α} {h : List (Exchanged (S.sum T))} {a : α}
    (runs : Runs (p.inSecond (S := S)) h a) : ∃ k, h = k.map .inSecond ∧ Runs p k a := by
  induction p generalizing h with
  | done b =>
    cases runs
    exact ⟨[], rfl, .done a⟩
  | ask op next ih =>
    cases runs with
    | ask rest =>
      obtain ⟨k, rfl, runs⟩ := ih _ rest
      exact ⟨_ :: k, rfl, .ask runs⟩

theorem Obeys.inSecond {rule : List (Exchanged T) → T.Op → Prop}
    {promise : List (Exchanged T) → α → Prop} {rule' : List (Exchanged (S.sum T)) → (S.sum T).Op → Prop}
    {promise' : List (Exchanged (S.sum T)) → α → Prop} {before : List (Exchanged (S.sum T))}
    (allowed : ∀ h op, rule h op → rule' (before ++ h.map .inSecond) (.inr op))
    (ended : ∀ h a, promise h a → promise' (before ++ h.map .inSecond) a)
    {p : Program T α} (obeys : Obeys rule promise [] p) :
    Obeys rule' promise' before (p.inSecond (S := S)) := by
  have general : ∀ (p : Program T α) h, Obeys rule promise h p →
      Obeys rule' promise' (before ++ h.map .inSecond) (p.inSecond (S := S)) := by
    intro p
    induction p with
    | done a => exact fun h obeys => ended h a obeys
    | ask op next ih =>
      refine fun h obeys => ⟨allowed h op obeys.1, fun r => ?_⟩
      have rest := ih r (h ++ [⟨op, r⟩]) (obeys.2 r)
      rw [List.map_append, ← List.append_assoc] at rest
      exact rest
  have whole := general p [] obeys
  rw [List.map_nil, List.append_nil] at whole
  exact whole

theorem Obeys.interpretSecond {U : Signature} {rule : List (Exchanged (S.sum T)) → (S.sum T).Op → Prop}
    {promise : List (Exchanged (S.sum T)) → α → Prop}
    {rule' : List (Exchanged (S.sum U)) → (S.sum U).Op → Prop}
    {promise' : List (Exchanged (S.sum U)) → α → Prop}
    {related : List (Exchanged (S.sum T)) → List (Exchanged (S.sum U)) → Prop}
    {carry : (op : T.Op) → Program U (T.Answer op)}
    (first : ∀ h k op, related h k → rule h (.inl op) → rule' k (.inl op) ∧
      ∀ r, related (h ++ [⟨.inl op, r⟩]) (k ++ [⟨.inl op, r⟩]))
    (second : ∀ h k op, related h k → rule h (.inr op) →
      Obeys rule' (fun k' r => related (h ++ [⟨.inr op, r⟩]) k') k ((carry op).inSecond (S := S)))
    (ended : ∀ h k a, related h k → promise h a → promise' k a)
    {p : Program (S.sum T) α} {h : List (Exchanged (S.sum T))} {k : List (Exchanged (S.sum U))}
    (obeys : Obeys rule promise h p) (start : related h k) :
    Obeys rule' promise' k (p.interpretSecond carry) := by
  refine Obeys.interpret (fun h k op known allowed => ?_) ended obeys start
  cases op with
  | inl op =>
    obtain ⟨may, goes⟩ := first h k op known allowed
    exact obeys_call (S := S.sum U) may goes
  | inr op => exact second h k op known allowed

end MarketFeed.Program
