import Mathlib.Logic.Function.Iterate
import Mathlib.Logic.Relation
import MarketFeed.Proofs.Program.Histories
import MarketFeed.Simulation.Scheduler
/-!
Programs side by side in any order. A thread is a program that has been started; it moves by one
request at a time, and between two of its moves other threads may move, time may pass, tokens may be
cancelled and the surroundings may change. Waits may end at any time, so the turns of a scheduler are
some of the runs considered here.
-/

set_option autoImplicit false
set_option relaxedAutoImplicit false

namespace MarketFeed.Simulation

def Step.answer? {α : Type} : Step α → Option α
  | .answer a | .cancelling a => some a
  | .wait _ | .breakDown => none

structure Timed (S : Signature) where
  time : Instant
  exchanged : Program.Exchanged S

/-- How a thread stands: it can go on, it has begun to wait for an answer, or it broke down. -/
inductive Pose where
  | ready
  | waiting
  | gone
  deriving DecidableEq, Repr

/-- A program that has been started: what it was and when, the requests answered so far, what is left
of it, how it stands, and whether its token is cancelled. -/
structure Thread (S : Signature) (α : Type) where
  origin : Program S α
  begun : Instant
  log : List (Timed S)
  rest : Program S α
  pose : Pose
  cancelled : Bool

namespace Thread

variable {σ α : Type} {S : Signature}

def ofProgram (p : Program S α) (now : Instant) : Thread S α := ⟨p, now, [], p, .ready, false⟩

def history (t : Thread S α) : List (Program.Exchanged S) := t.log.map Timed.exchanged

def latest (t : Thread S α) : Instant := (t.log.getLast?.map Timed.time).getD t.begun

def answered (t : Thread S α) (now : Instant) (op : S.Op) (a : S.Answer op)
    (next : Program S α) : Thread S α :=
  { t with log := t.log ++ [⟨now, op, a⟩], rest := next, pose := .ready }

def handled (h : Handler σ S) (now : Instant) (t : Thread S α) (op : S.Op) (s : σ) :
    Step (S.Answer op) × σ :=
  if t.pose = .waiting then h.resume now t.cancelled op s else h.start now t.cancelled op s

def settled (t : Thread S α) (now : Instant) (op : S.Op) (next : S.Answer op → Program S α) :
    Step (S.Answer op) → Thread S α
  | .answer a => t.answered now op a (next a)
  | .cancelling a => { t.answered now op a (next a) with cancelled := true }
  | .wait _ => { t with pose := .waiting }
  | .breakDown => { t with pose := .gone }

/-- One request of a thread, if it has one left and did not break down. -/
def move (h : Handler σ S) (now : Instant) (t : Thread S α) (s : σ) : Thread S α × σ :=
  match t.rest with
  | .done _ => (t, s)
  | .ask op next =>
    if t.pose = .gone then (t, s)
    else (t.settled now op next (t.handled h now op s).1, (t.handled h now op s).2)

theorem handled_of (h : Handler σ S) (now : Instant) (t : Thread S α) (op : S.Op) (s : σ)
    (P : Step (S.Answer op) × σ → Prop) (resumed : P (h.resume now t.cancelled op s))
    (started : P (h.start now t.cancelled op s)) : P (t.handled h now op s) := by
  rw [handled]
  split
  · exact resumed
  · exact started

@[simp] theorem history_answered (t : Thread S α) (now : Instant) (op : S.Op) (a : S.Answer op)
    (next : Program S α) : (t.answered now op a next).history = t.history ++ [⟨op, a⟩] := by
  rw [history, answered, List.map_append]
  rfl

theorem move_done (h : Handler σ S) (now : Instant) {t : Thread S α} (s : σ) {a : α}
    (ended : t.rest = .done a) : t.move h now s = (t, s) := by
  rw [move, ended]

theorem move_gone (h : Handler σ S) (now : Instant) {t : Thread S α} (s : σ)
    (gone : t.pose = .gone) : t.move h now s = (t, s) := by
  rw [move]
  split
  · rfl
  · exact if_pos gone

theorem move_ask (h : Handler σ S) (now : Instant) {t : Thread S α} (s : σ) {op : S.Op}
    {next : S.Answer op → Program S α} (asks : t.rest = .ask op next) (present : t.pose ≠ .gone) :
    t.move h now s =
      (t.settled now op next (t.handled h now op s).1, (t.handled h now op s).2) := by
  rw [move, asks]
  exact if_neg present

theorem move_cases (h : Handler σ S) (now : Instant) (t : Thread S α) (s : σ) :
    t.move h now s = (t, s) ∨ ∃ op next, t.rest = .ask op next ∧ t.pose ≠ .gone ∧
      t.move h now s =
        (t.settled now op next (t.handled h now op s).1, (t.handled h now op s).2) := by
  cases left : t.rest with
  | done a => exact .inl (move_done h now s left)
  | ask op next =>
    by_cases gone : t.pose = .gone
    · exact .inl (move_gone h now s gone)
    · exact .inr ⟨op, next, rfl, gone, move_ask h now s left gone⟩

theorem settled_cases (t : Thread S α) (now : Instant) {op : S.Op}
    (next : S.Answer op → Program S α) (r : Step (S.Answer op)) :
    (∃ a, r.answer? = some a ∧ (t.settled now op next r).log = t.log ++ [⟨now, op, a⟩] ∧
        (t.settled now op next r).rest = next a) ∨
      (r.answer? = none ∧ (t.settled now op next r).log = t.log ∧
        (t.settled now op next r).rest = t.rest) := by
  cases r with
  | answer a => exact .inl ⟨a, rfl, rfl, rfl⟩
  | cancelling a => exact .inl ⟨a, rfl, rfl, rfl⟩
  | wait until_ => exact .inr ⟨rfl, rfl, rfl⟩
  | breakDown => exact .inr ⟨rfl, rfl, rfl⟩

theorem mem_log_move {h : Handler σ S} {now : Instant} {t : Thread S α} {s : σ} {e : Timed S}
    (member : e ∈ (t.move h now s).1.log) :
    e ∈ t.log ∨ ∃ op a, e = ⟨now, op, a⟩ ∧ (t.handled h now op s).1.answer? = some a := by
  rcases t.move_cases h now s with still | ⟨op, next, -, -, moved⟩
  · rw [still] at member
    exact .inl member
  · rw [moved] at member
    rcases t.settled_cases now next (t.handled h now op s).1 with ⟨a, given, log, -⟩ | ⟨-, log, -⟩
    · rw [log, List.mem_append] at member
      rcases member with old | new
      · exact .inl old
      · exact .inr ⟨op, a, List.mem_singleton.mp new, given⟩
    · rw [log] at member
      exact .inl member

@[simp] theorem settled_origin (t : Thread S α) (now : Instant) (op : S.Op)
    (next : S.Answer op → Program S α) (r : Step (S.Answer op)) :
    (t.settled now op next r).origin = t.origin := by
  cases r <;> rfl

@[simp] theorem settled_begun (t : Thread S α) (now : Instant) (op : S.Op)
    (next : S.Answer op → Program S α) (r : Step (S.Answer op)) :
    (t.settled now op next r).begun = t.begun := by
  cases r <;> rfl

/-- What a thread can become: it keeps its origin and its log, and what the log gains is a part of a
run of what was left. -/
structure Onward (t t' : Thread S α) : Prop where
  origin : t'.origin = t.origin
  begun : t'.begun = t.begun
  more : ∃ more, t'.log = t.log ++ more ∧
    t.rest.After (more.map Timed.exchanged) t'.rest

theorem Onward.refl (t : Thread S α) : t.Onward t :=
  ⟨rfl, rfl, [], (List.append_nil _).symm, .here _⟩

theorem Onward.trans {t t' t'' : Thread S α} (first : t.Onward t') (second : t'.Onward t'') :
    t.Onward t'' := by
  obtain ⟨more, log, after⟩ := first.more
  obtain ⟨more', log', after'⟩ := second.more
  refine ⟨second.origin.trans first.origin, second.begun.trans first.begun, more ++ more', ?_, ?_⟩
  · rw [log', log, List.append_assoc]
  · rw [List.map_append]
    exact after.trans after'

theorem onward_move (h : Handler σ S) (now : Instant) (t : Thread S α) (s : σ) :
    t.Onward (t.move h now s).1 := by
  rcases move_cases h now t s with still | ⟨op, next, asks, -, moved⟩
  · rw [still]
    exact .refl t
  · rw [moved]
    refine ⟨settled_origin .., settled_begun .., ?_⟩
    rcases settled_cases t now next (t.handled h now op s).1 with ⟨a, -, log, rest⟩ | ⟨-, log, rest⟩
    · refine ⟨[⟨now, op, a⟩], log, ?_⟩
      rw [rest, asks]
      exact .ask (.here _)
    · refine ⟨[], ?_, ?_⟩
      · rw [log, List.append_nil]
      · rw [rest]
        exact .here _

structure BrokeDown (t : Thread S α) : Prop where
  gone : t.pose = .gone
  unfinished : ∀ a, t.rest ≠ .done a

def Stands (t : Thread S α) : Turn S α → Prop
  | .ended a => t.rest = .done a
  | .broken => t.BrokeDown
  | .waiting p _ => t.rest = p ∧ t.pose = .waiting

/-- A turn of the scheduler is a number of moves of one thread with nothing between them. -/
theorem turn_moves (h : Handler σ S) (now : Instant) (t : Thread S α) (s : σ)
    (present : t.pose ≠ .gone) :
    ∃ n t', (fun x : Thread S α × σ => x.1.move h now x.2)^[n] (t, s) =
        (t', (turn h now t.rest (t.pose == .waiting) t.cancelled s).2.2) ∧
      t'.Stands (turn h now t.rest (t.pose == .waiting) t.cancelled s).1 ∧
      t'.cancelled = (turn h now t.rest (t.pose == .waiting) t.cancelled s).2.1 := by
  generalize left : t.rest = p
  induction p generalizing t s with
  | done a => exact ⟨0, t, rfl, left, rfl⟩
  | ask op next ih =>
    have moved := move_ask h now s left present
    have handled_eq : t.handled h now op s =
        if (t.pose == .waiting) then h.resume now t.cancelled op s
        else h.start now t.cancelled op s := by
      simp only [handled, beq_iff_eq]
    rw [turn, ← handled_eq]
    cases done : (t.handled h now op s).1 with
    | answer a =>
      rw [done] at moved
      obtain ⟨n, t', steps, stands, token⟩ :=
        ih a (t.answered now op a (next a)) (t.handled h now op s).2 (by simp [answered]) rfl
      refine ⟨n + 1, t', ?_, stands, token⟩
      rw [Function.iterate_succ_apply, moved]
      exact steps
    | cancelling a =>
      rw [done] at moved
      obtain ⟨n, t', steps, stands, token⟩ :=
        ih a { t.answered now op a (next a) with cancelled := true } (t.handled h now op s).2
          (by simp [answered]) rfl
      refine ⟨n + 1, t', ?_, stands, token⟩
      rw [Function.iterate_succ_apply, moved]
      exact steps
    | wait u =>
      rw [done] at moved
      exact ⟨1, { t with pose := .waiting }, moved, ⟨left, rfl⟩, rfl⟩
    | breakDown =>
      rw [done] at moved
      refine ⟨1, { t with pose := .gone }, moved, ⟨rfl, fun a ended => ?_⟩, rfl⟩
      cases left.symm.trans ended

end Thread

/-- What handles requests, which programs may be started, and what else may change. -/
structure Setting (σ : Type) (S : Signature) (α : Type) extends Handler σ S where
  starts : Instant → σ → Program S α → Prop
  changes : Instant → σ → σ → Prop

/-- The clock, the state of the surroundings, and every thread started so far. -/
structure System (σ : Type) (S : Signature) (α : Type) where
  now : Instant
  state : σ
  threads : List (Thread S α)

namespace Setting

variable {σ α : Type} {S : Signature}

/-- What may happen next: time passes, a program is started, a token is cancelled, a thread moves, or
the surroundings change. -/
inductive Next (A : Setting σ S α) : System σ S α → System σ S α → Prop where
  | pass {w : System σ S α} {now : Instant} (later : w.now ≤ now) : Next A w { w with now }
  | start {w : System σ S α} {p : Program S α} (may : A.starts w.now w.state p) :
      Next A w { w with threads := w.threads ++ [.ofProgram p w.now] }
  | cancel {w : System σ S α} {i : Nat} {t : Thread S α} (found : w.threads[i]? = some t) :
      Next A w { w with threads := w.threads.set i { t with cancelled := true } }
  | move {w : System σ S α} {i : Nat} {t : Thread S α} (found : w.threads[i]? = some t) :
      Next A w { w with
        state := (t.move A.toHandler w.now w.state).2
        threads := w.threads.set i (t.move A.toHandler w.now w.state).1 }
  | change {w : System σ S α} {s : σ} (may : A.changes w.now w.state s) :
      Next A w { w with state := s }

def Leads (A : Setting σ S α) : System σ S α → System σ S α → Prop := Relation.ReflTransGen A.Next

def Reaches (A : Setting σ S α) (s : σ) (w : System σ S α) : Prop :=
  ∃ now, A.Leads ⟨now, s, []⟩ w

variable {A : Setting σ S α} {w w' : System σ S α}

theorem Next.now_le (next : A.Next w w') : w.now ≤ w'.now := by
  cases next with
  | pass later => exact later
  | _ => exact Nat.le_refl _

theorem Leads.now_le (run : A.Leads w w') : w.now ≤ w'.now := by
  induction run with
  | refl => exact Nat.le_refl _
  | tail _ next ih => exact Nat.le_trans ih next.now_le

theorem Next.mem (next : A.Next w w') {t' : Thread S α} (member : t' ∈ w'.threads) :
    (∃ t ∈ w.threads, t' = t ∨ t' = { t with cancelled := true } ∨
        t' = (t.move A.toHandler w.now w.state).1) ∨
      ∃ p, A.starts w.now w.state p ∧ t' = .ofProgram p w.now := by
  cases next with
  | pass later => exact .inl ⟨t', member, .inl rfl⟩
  | start may =>
    rcases List.mem_append.mp member with old | new
    · exact .inl ⟨t', old, .inl rfl⟩
    · exact .inr ⟨_, may, List.mem_singleton.mp new⟩
  | cancel found =>
    rcases List.mem_or_eq_of_mem_set member with old | new
    · exact .inl ⟨t', old, .inl rfl⟩
    · exact .inl ⟨_, List.mem_of_getElem? found, .inr (.inl new)⟩
  | move found =>
    rcases List.mem_or_eq_of_mem_set member with old | new
    · exact .inl ⟨t', old, .inl rfl⟩
    · exact .inl ⟨_, List.mem_of_getElem? found, .inr (.inr new)⟩
  | change may => exact .inl ⟨t', member, .inl rfl⟩

theorem Next.found (next : A.Next w w') {i : Nat} {t : Thread S α}
    (found : w.threads[i]? = some t) :
    w'.threads[i]? = some t ∨ w'.threads[i]? = some { t with cancelled := true } ∨
      w'.threads[i]? = some (t.move A.toHandler w.now w.state).1 := by
  have inside : i < w.threads.length := (List.getElem?_eq_some_iff.mp found).1
  cases next with
  | pass later => exact .inl found
  | start may =>
    left
    rw [← found]
    exact List.getElem?_append_left inside
  | @cancel k t' found' =>
    by_cases same : k = i
    · subst same
      rw [found] at found'
      cases found'
      exact .inr (.inl (List.getElem?_set_self inside))
    · exact .inl ((List.getElem?_set_ne same).trans found)
  | @move k t' found' =>
    by_cases same : k = i
    · subst same
      rw [found] at found'
      cases found'
      exact .inr (.inr (List.getElem?_set_self inside))
    · exact .inl ((List.getElem?_set_ne same).trans found)
  | change may => exact .inl found

theorem Next.mem_log (next : A.Next w w') {t' : Thread S α} (member : t' ∈ w'.threads)
    {e : Timed S} (logged : e ∈ t'.log) :
    (∃ t ∈ w.threads, e ∈ t.log) ∨ ∃ t ∈ w.threads, ∃ op a, e = ⟨w.now, op, a⟩ ∧
      (t.handled A.toHandler w.now op w.state).1.answer? = some a := by
  rcases next.mem member with ⟨t, old, rfl | rfl | rfl⟩ | ⟨p, -, rfl⟩
  · exact .inl ⟨t', old, logged⟩
  · exact .inl ⟨t, old, logged⟩
  · rcases Thread.mem_log_move logged with before | ⟨op, a, same, given⟩
    · exact .inl ⟨t, old, before⟩
    · exact .inr ⟨t, old, op, a, same, given⟩
  · cases logged

/-- Threads go on and are never lost. -/
theorem Leads.onward (run : A.Leads w w') {i : Nat} {t : Thread S α}
    (found : w.threads[i]? = some t) : ∃ t', w'.threads[i]? = some t' ∧ t.Onward t' := by
  induction run with
  | refl => exact ⟨t, found, .refl t⟩
  | tail _ next ih =>
    obtain ⟨t', found', onward⟩ := ih
    rcases next.found found' with same | cancelled | moved
    · exact ⟨t', same, onward⟩
    · exact ⟨_, cancelled, onward.trans ⟨rfl, rfl, [], (List.append_nil _).symm, .here _⟩⟩
    · exact ⟨_, moved, onward.trans (t'.onward_move _ _ _)⟩

theorem Leads.brokeDown (run : A.Leads w w') {i : Nat} {t : Thread S α}
    (found : w.threads[i]? = some t) (broke : t.BrokeDown) :
    ∃ t', w'.threads[i]? = some t' ∧ t'.BrokeDown := by
  induction run with
  | refl => exact ⟨t, found, broke⟩
  | tail _ next ih =>
    obtain ⟨t', found', broke'⟩ := ih
    rcases next.found found' with same | cancelled | moved
    · exact ⟨t', same, broke'⟩
    · exact ⟨_, cancelled, broke'.gone, broke'.unfinished⟩
    · rw [Thread.move_gone _ _ _ broke'.gone] at moved
      exact ⟨t', moved, broke'⟩

theorem Next.kept (next : A.Next w w') {t : Thread S α} (member : t ∈ w.threads) :
    ∃ t' ∈ w'.threads, t.Onward t' := by
  obtain ⟨i, found⟩ := List.mem_iff_getElem?.mp member
  obtain ⟨t', found', onward⟩ := Leads.onward (.single next) found
  exact ⟨t', List.mem_of_getElem? found', onward⟩

/-- Every thread is on its way through a run of a program that might be started. -/
theorem Reaches.after {s : σ} (reached : A.Reaches s w) :
    ∀ t ∈ w.threads, (∃ now s, A.starts now s t.origin) ∧ t.origin.After t.history t.rest := by
  obtain ⟨now, run⟩ := reached
  induction run with
  | refl => simp
  | tail _ next ih =>
    intro t' member
    rcases next.mem member with ⟨t, old, same⟩ | ⟨p, may, rfl⟩
    · obtain ⟨started, after⟩ := ih t old
      have onward : t.Onward t' := by
        rcases same with rfl | rfl | rfl
        · exact .refl _
        · exact ⟨rfl, rfl, [], (List.append_nil _).symm, .here _⟩
        · exact t.onward_move _ _ _
      obtain ⟨more, log, further⟩ := onward.more
      rw [onward.origin, Thread.history, log, List.map_append]
      exact ⟨started, after.trans further⟩
    · exact ⟨⟨_, _, may⟩, .here _⟩

theorem reaches_iterate {now : Instant} {s : σ} {p : Program S α} (may : A.starts now s p)
    (n : Nat) :
    A.Reaches s ⟨now, ((fun x : Thread S α × σ => x.1.move A.toHandler now x.2)^[n]
        (.ofProgram p now, s)).2,
      [((fun x : Thread S α × σ => x.1.move A.toHandler now x.2)^[n] (.ofProgram p now, s)).1]⟩ := by
  refine ⟨now, Relation.ReflTransGen.head (.start may) ?_⟩
  induction n with
  | zero => exact .refl
  | succ n ih =>
    rw [Function.iterate_succ_apply']
    exact ih.tail (.move (i := 0) rfl)

/-- A system after a move of the thread of some number, if there is one. -/
def moveOf (A : Setting σ S α) (w : System σ S α) (i : Nat) : System σ S α :=
  match w.threads[i]? with
  | some t => { w with
      state := (t.move A.toHandler w.now w.state).2
      threads := w.threads.set i (t.move A.toHandler w.now w.state).1 }
  | none => w

theorem leads_moveOf (w : System σ S α) (i : Nat) : A.Leads w (A.moveOf w i) := by
  rw [moveOf]
  split
  · rename_i t found
    exact .single (.move found)
  · exact .refl

theorem leads_moves (numbers : List Nat) (w : System σ S α) :
    A.Leads w (numbers.foldl A.moveOf w) := by
  induction numbers generalizing w with
  | nil => exact .refl
  | cons i numbers ih => exact (leads_moveOf w i).trans (ih (A.moveOf w i))

end Setting

end MarketFeed.Simulation
