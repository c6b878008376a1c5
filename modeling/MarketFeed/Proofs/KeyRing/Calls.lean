import MarketFeed.Proofs.KeyRing.Levels
/-!
Calls of a limiter by any number of tasks. Whatever the tasks do, their calls stand in one order in time,
and what they are told is what the limiter replies to the calls in this order. Calls that get no token of
a kind may be left out: the replies to the other calls for this kind stay the same.
-/

set_option autoImplicit false
set_option relaxedAutoImplicit false

namespace MarketFeed

open Program Simulation

namespace Limiter

/-- What a limiter is asked for: a token now or not at all, or one round of waiting for a token. -/
inductive Call where
  | take (kind : Credential.Kind)
  | attempt (kind : Credential.Kind)
  deriving DecidableEq, Repr

def Call.kind : Call → Credential.Kind
  | .take kind | .attempt kind => kind

inductive Reply where
  | granted
  | refused
  | later (pause : Duration)
  deriving DecidableEq

structure Called where
  time : Instant
  call : Call
  reply : Reply
  deriving DecidableEq

namespace Called

def asked (c : Called) : Instant × Call := (c.time, c.call)

def Gives (kind : Credential.Kind) (c : Called) : Prop := c.call.kind = kind ∧ c.reply = .granted

instance (kind : Credential.Kind) (c : Called) : Decidable (c.Gives kind) :=
  inferInstanceAs (Decidable (_ ∧ _))

/-- Whether a call was no round of waiting that has to be followed by another. -/
def settled (c : Called) : Bool :=
  match c.reply with
  | .later _ => false
  | _ => true

end Called

section Calls

variable {R : Type} [Quantity R]

def call (l : Limiter R) (now : Instant) : Call → Reply × Limiter R
  | .take kind => (if (l.take now kind).1 then .granted else .refused, (l.take now kind).2)
  | .attempt kind => ((l.attempt now kind).1.elim .granted .later, (l.attempt now kind).2)

def answer (l : Limiter R) : List (Instant × Call) → List Called × Limiter R
  | [] => ([], l)
  | (now, c) :: calls =>
    let rest := (l.call now c).2.answer calls
    (⟨now, c, (l.call now c).1⟩ :: rest.1, rest.2)

theorem answer_append (l : Limiter R) (calls more : List (Instant × Call)) :
    l.answer (calls ++ more) =
      ((l.answer calls).1 ++ ((l.answer calls).2.answer more).1, ((l.answer calls).2.answer more).2) := by
  induction calls generalizing l with
  | nil => rfl
  | cons c calls ih =>
    obtain ⟨now, c⟩ := c
    rw [List.cons_append, answer, ih]
    rfl

theorem map_asked_answer (l : Limiter R) (calls : List (Instant × Call)) :
    (l.answer calls).1.map Called.asked = calls := by
  induction calls generalizing l with
  | nil => rfl
  | cons c calls ih =>
    obtain ⟨now, c⟩ := c
    rw [answer, List.map_cons, ih]
    rfl

end Calls

structure InOrder (start now : Instant) (calls : List (Instant × Call)) : Prop where
  sorted : calls.Pairwise fun c d => c.1 ≤ d.1
  since : ∀ c ∈ calls, start ≤ c.1
  past : ∀ c ∈ calls, c.1 ≤ now

/-- Some of the calls were left out, none of which got a token of a kind. -/
inductive Thinned (kind : Credential.Kind) : List Called → List Called → Prop where
  | nil : Thinned kind [] []
  | keep {c : Called} {all kept : List Called} (later : Thinned kind all kept) :
      Thinned kind (c :: all) (c :: kept)
  | drop {c : Called} {all kept : List Called} (nothing : ¬ c.Gives kind)
      (later : Thinned kind all kept) : Thinned kind (c :: all) kept

/-! ### One call -/

section Sound

variable {limit : RateLimit} {kind : Credential.Kind} {start now : Instant} {l l' : Limiter Rat}

theorem call_take_granted {kind' : Credential.Kind} :
    (l.call now (.take kind')).1 = .granted ↔ (l.take now kind').1 = true := by
  show (if (l.take now kind').1 then Reply.granted else .refused) = .granted ↔ _
  cases (l.take now kind').1 <;> simp

theorem call_attempt_granted {kind' : Credential.Kind} :
    (l.call now (.attempt kind')).1 = .granted ↔ (l.attempt now kind').1 = none := by
  show (l.attempt now kind').1.elim Reply.granted .later = .granted ↔ _
  cases (l.attempt now kind').1 <;> simp

theorem Sound.call (sound : l.Sound limit kind now) (c : Call) :
    (l.call now c).2.Sound limit kind now ∧
      (l.call now c).2.level kind now +
        (if Called.Gives kind ⟨now, c, (l.call now c).1⟩ then 1 else 0) = l.level kind now := by
  unfold Called.Gives
  cases c with
  | take kind' =>
    simp only [call_take_granted]
    exact sound.take kind'
  | attempt kind' =>
    simp only [call_attempt_granted]
    exact sound.attempt kind'

theorem Sound.reply_eq (sound : l.Sound limit kind now) (sound' : l'.Sound limit kind now)
    (same : l.level kind now = l'.level kind now) {c : Call} (own : c.kind = kind) :
    (l.call now c).1 = (l'.call now c).1 := by
  cases c with
  | take kind' =>
    cases own
    have given : (l.take now kind').1 = (l'.take now kind').1 := by
      rw [take_eq, take_eq]
      exact congrArg (fun level => decide (1 ≤ level)) same
    exact congrArg (fun given => if given then Reply.granted else .refused) given
  | attempt kind' =>
    cases own
    have told : (l.attempt now kind').1 = (l'.attempt now kind').1 :=
      sound.attempt_eq.trans ((congrArg limit.pause? same).trans sound'.attempt_eq.symm)
    exact congrArg (fun told => told.elim Reply.granted .later) told

end Sound

/-! ### Many calls -/

section Runs

variable {limit : RateLimit} {kind : Credential.Kind} {start now : Instant} {l l' : Limiter Rat}
  {calls : List (Instant × Call)}

def given (kind : Credential.Kind) (called : List Called) : List Instant :=
  (called.filter fun c => c.Gives kind).map Called.time

theorem InOrder.head {time : Instant} {c : Call}
    (ordered : InOrder start now ((time, c) :: calls)) :
    start ≤ time ∧ time ≤ now ∧ InOrder time now calls := by
  obtain ⟨sorted, since, past⟩ := ordered
  obtain ⟨first, sorted⟩ := List.pairwise_cons.mp sorted
  exact ⟨since _ List.mem_cons_self, past _ List.mem_cons_self, sorted, first,
    fun c member => past c (List.mem_cons_of_mem _ member)⟩

theorem metered_answer {times : List Instant}
    (metered : KeyRing.Metered limit kind start l times) (le : start ≤ now)
    (ordered : InOrder start now calls) :
    KeyRing.Metered limit kind now (l.answer calls).2 (times ++ given kind (l.answer calls).1) := by
  induction calls generalizing start l times with
  | nil =>
    rw [answer, given, List.filter_nil, List.map_nil, List.append_nil]
    exact metered.wait le
  | cons c calls ih =>
    obtain ⟨time, c⟩ := c
    obtain ⟨before, behind, later⟩ := ordered.head
    obtain ⟨kept, spent⟩ := (metered.wait before).sound.call c
    have rest := ih ((metered.wait before).step kept spent) behind later
    rw [List.append_assoc] at rest
    rw [answer, given, List.filter_cons]
    by_cases gives : Called.Gives kind ⟨time, c, (l.call time c).1⟩
    · rw [if_pos (decide_eq_true gives)]
      rw [if_pos gives] at rest
      exact rest
    · rw [if_neg (by simpa using gives)]
      rw [if_neg gives] at rest
      exact rest

/-- Calls that get no token of a kind may be left out without any change to the replies to the others. -/
theorem replies_thinned {kept : List Called} (sound : l.Sound limit kind start)
    (sound' : l'.Sound limit kind start) (same : l.level kind start = l'.level kind start)
    (ordered : InOrder start now calls) (thinned : Thinned kind (l.answer calls).1 kept) :
    (l'.answer (kept.map Called.asked)).1.filter (fun c => c.call.kind = kind) =
      kept.filter fun c => c.call.kind = kind := by
  induction calls generalizing start l l' kept with
  | nil =>
    cases thinned
    rfl
  | cons c calls ih =>
    obtain ⟨time, c⟩ := c
    obtain ⟨before, behind, later⟩ := ordered.head
    have level : l.level kind time = l'.level kind time := by
      rw [sound.level_from before, sound'.level_from before, same]
    obtain ⟨left, spent⟩ := (sound.wait before).call c
    rw [answer] at thinned
    cases thinned with
    | @keep _ _ kept thinned =>
      obtain ⟨left', spent'⟩ := (sound'.wait before).call c
      rw [List.map_cons, Called.asked, answer]
      by_cases own : c.kind = kind
      · -- the same level means the same reply, and the reply tells what is taken from the level
        have reply := (sound.wait before).reply_eq (sound'.wait before) level own
        rw [← reply, ← level, ← spent, add_left_inj] at spent'
        rw [List.filter_cons, List.filter_cons, if_pos (decide_eq_true own), if_pos (decide_eq_true own),
          ih left left' spent'.symm later thinned, reply]
      · rw [if_neg fun gives => own gives.1, add_zero] at spent spent'
        rw [List.filter_cons, List.filter_cons, if_neg (by simpa using own), if_neg (by simpa using own)]
        exact ih left left' (spent.trans (level.trans spent'.symm)) later thinned
    | drop nothing thinned =>
      -- the other limiter is not asked: it only has to have the same level afterwards
      rw [if_neg nothing, add_zero] at spent
      exact ih left (sound'.wait before) (spent.trans level) later thinned

end Runs

end Limiter

end MarketFeed
