/-!
Programs that ask their surroundings. A program either is done or asks one thing and goes on with
the answer. What can be asked, and what an answer to it is, is a signature. A program can be run
against surroundings that keep a state, its requests can be carried out by programs over another
signature, and `Runs` is the relation between a program, a history of requests with their answers,
and the result.
-/

set_option autoImplicit false
set_option relaxedAutoImplicit false

namespace MarketFeed

/-- What can be asked, and the answers to each request. -/
structure Signature where
  Op : Type
  Answer : Op → Type

namespace Signature

def sum (S T : Signature) : Signature where
  Op := S.Op ⊕ T.Op
  Answer
    | .inl op => S.Answer op
    | .inr op => T.Answer op

end Signature

/-- A finished result, or a request and how to go on with each answer. -/
inductive Program (S : Signature) (α : Type) where
  | done (a : α)
  | ask (op : S.Op) (next : S.Answer op → Program S α)

namespace Program

variable {S T U : Signature} {α β : Type}

def bind : Program S α → (α → Program S β) → Program S β
  | .done a, f => f a
  | .ask op next, f => .ask op fun r => (next r).bind f

instance : Monad (Program S) where
  pure := .done
  bind := bind

def call (op : S.Op) : Program S (S.Answer op) := .ask op .done

/-- Carries out each request by a program over another signature. -/
def interpret (h : (op : S.Op) → Program T (S.Answer op)) : Program S α → Program T α
  | .done a => .done a
  | .ask op next => (h op).bind fun r => (next r).interpret h

def lift (into : S.Op → T.Op) (back : (op : S.Op) → T.Answer (into op) → S.Answer op) :
    Program S α → Program T α
  | .done a => .done a
  | .ask op next => .ask (into op) fun r => (next (back op r)).lift into back

def inFirst (p : Program S α) : Program (S.sum T) α := p.lift .inl fun _ r => r

def inSecond (p : Program T α) : Program (S.sum T) α := p.lift .inr fun _ r => r

/-- Carries out the requests to the second of two surroundings by programs over another signature. -/
def interpretSecond (h : (op : T.Op) → Program U (T.Answer op)) :
    Program (S.sum T) α → Program (S.sum U) α :=
  interpret fun
    | .inl op => call (S := S.sum U) (.inl op)
    | .inr op => (h op).inSecond

/-- Runs a program in surroundings that answer at once and keep a state. -/
def run {σ : Type} (answer : σ → (op : S.Op) → σ × S.Answer op) : Program S α → σ → σ × α
  | .done a, s => (s, a)
  | .ask op next, s =>
    let step := answer s op
    (next step.2).run answer step.1

/-- Runs a program in surroundings that answer at once, keep a state, and may break down instead of
answering; then there is no result. -/
def run? {σ : Type} (answer : σ → (op : S.Op) → σ × Option (S.Answer op)) :
    Program S α → σ → σ × Option α
  | .done a, s => (s, some a)
  | .ask op next, s =>
    match answer s op with
    | (s, some r) => (next r).run? answer s
    | (s, none) => (s, none)

/-- One request with its answer. -/
structure Exchanged (S : Signature) where
  op : S.Op
  answer : S.Answer op

/-- `Runs p history a`: asking and answered as in `history`, the program ends with `a`. -/
inductive Runs : Program S α → List (Exchanged S) → α → Prop
  | done (a : α) : Runs (.done a) [] a
  | ask {op : S.Op} {next : S.Answer op → Program S α} {r : S.Answer op}
      {history : List (Exchanged S)} {a : α} (h : Runs (next r) history a) :
      Runs (.ask op next) (⟨op, r⟩ :: history) a

end Program

end MarketFeed
