import MarketFeed.Proofs.Simulation.Interleaving
/-!
What threads do to a state, told as items in one order of time. An exchange may tell of an item; items that
no exchange tells of may come between. If every request that is handled adds items at its time, then the
state of a running system is what some items lead to, and the logs together tell of them.
-/

set_option autoImplicit false
set_option relaxedAutoImplicit false

namespace MarketFeed.Simulation

variable {σ α ι : Type} {S : Signature}

theorem Thread.logs_set {threads : List (Thread S α)} {i : Nat} {t t' : Thread S α}
    {more : List (Timed S)} (found : threads[i]? = some t) (log : t'.log = t.log ++ more) :
    ((threads.set i t').flatMap Thread.log).Perm (threads.flatMap Thread.log ++ more) := by
  induction threads generalizing i with
  | nil => cases found
  | cons u threads ih =>
    cases i with
    | zero =>
      cases found
      rw [List.set_cons_zero, List.flatMap_cons, List.flatMap_cons, log, List.append_assoc,
        List.append_assoc]
      exact List.perm_append_comm.append_left _
    | succ i =>
      rw [List.set_cons_succ, List.flatMap_cons, List.flatMap_cons, List.append_assoc]
      exact (ih found).append_left _

/-- Items that tell what is done to a state: their times, the items that exchanges tell of, which items
are told of, and the states that items lead to. -/
structure Account (σ ι : Type) (S : Signature) where
  time : ι → Instant
  told? : Timed S → Option ι
  isTold : ι → Bool
  leads : List ι → σ → Prop

namespace Account

/-- What was done about a request adds items at the time, and the answer tells of those that are told. -/
def Adds (B : Account σ ι S) (now : Instant) (items : List ι) (op : S.Op)
    (r : Step (S.Answer op) × σ) : Prop :=
  ∃ new, (∀ i ∈ new, B.time i = now) ∧ B.leads (items ++ new) r.2 ∧
    (r.1.answer?.bind fun a => B.told? ⟨now, op, a⟩).toList = new.filter B.isTold

/-- Every request adds items, and the surroundings change nothing that is told. -/
structure Covers (B : Account σ ι S) (A : Setting σ S α) : Prop where
  start : ∀ {now cancelled op s items}, B.leads items s →
    B.Adds now items op (A.start now cancelled op s)
  resume : ∀ {now cancelled op s items}, B.leads items s →
    B.Adds now items op (A.resume now cancelled op s)
  change : ∀ {now s s' items}, A.changes now s s' → B.leads items s → B.leads items s'

/-- Items in order of time lead to the state of a system, and the logs tell of those that are told. -/
structure Tells (B : Account σ ι S) (items : List ι) (w : System σ S α) : Prop where
  ordered : items.Pairwise fun i j => B.time i ≤ B.time j
  past : ∀ i ∈ items, B.time i ≤ w.now
  leads : B.leads items w.state
  told : ((w.threads.flatMap Thread.log).filterMap B.told?).Perm (items.filter B.isTold)

variable {B : Account σ ι S} {A : Setting σ S α} {w w' : System σ S α} {items : List ι}

theorem Covers.move (covers : B.Covers A) (t : Thread S α) (now : Instant) {s : σ}
    (leads : B.leads items s) :
    ∃ new more, (∀ i ∈ new, B.time i = now) ∧ B.leads (items ++ new) (t.move A.toHandler now s).2 ∧
      (t.move A.toHandler now s).1.log = t.log ++ more ∧
      more.filterMap B.told? = new.filter B.isTold := by
  rcases t.move_cases A.toHandler now s with still | ⟨op, next, -, -, moved⟩
  · rw [still]
    exact ⟨[], [], nofun, by rwa [List.append_nil], (List.append_nil _).symm, rfl⟩
  · obtain ⟨new, timely, onward, tells⟩ := t.handled_of A.toHandler now op s (B.Adds now items op)
      (covers.resume leads) (covers.start leads)
    rw [moved]
    rcases t.settled_cases now next (t.handled A.toHandler now op s).1 with
      ⟨a, given, log, -⟩ | ⟨given, log, -⟩
    · refine ⟨new, _, timely, onward, log, ?_⟩
      rw [← tells, given, Option.bind_some, List.filterMap_cons]
      cases B.told? ⟨now, op, a⟩ <;> rfl
    · refine ⟨new, [], timely, onward, log.trans (List.append_nil _).symm, ?_⟩
      rw [← tells, given]
      rfl

theorem Covers.next (covers : B.Covers A) (tells : B.Tells items w) (next : A.Next w w') :
    ∃ items, B.Tells items w' := by
  obtain ⟨ordered, past, leads, told⟩ := tells
  cases next with
  | pass later => exact ⟨items, ordered, fun i here => Nat.le_trans (past i here) later, leads, told⟩
  | start may =>
    refine ⟨items, ordered, past, leads, ?_⟩
    rw [List.flatMap_append]
    exact (List.append_nil (w.threads.flatMap Thread.log)).symm ▸ told
  | @cancel i t found =>
    have log : { t with cancelled := true : Thread S α }.log = t.log ++ [] := (List.append_nil _).symm
    have same := Thread.logs_set found log
    rw [List.append_nil] at same
    exact ⟨items, ordered, past, leads, (same.filterMap B.told?).trans told⟩
  | @move i t found =>
    -- the items of this move are the latest of all, though its thread may stand anywhere
    obtain ⟨new, more, timely, onward, log, tells⟩ := covers.move t w.now leads
    refine ⟨items ++ new, List.pairwise_append.mpr ⟨ordered, ?_, ?_⟩, ?_, onward, ?_⟩
    · refine List.pairwise_of_forall_mem_list fun i here j there => ?_
      exact Nat.le_of_eq ((timely i here).trans (timely j there).symm)
    · intro i here j there
      rw [timely j there]
      exact past i here
    · intro i here
      rcases List.mem_append.mp here with old | fresh
      · exact past i old
      · exact Nat.le_of_eq (timely i fresh)
    · refine ((Thread.logs_set found log).filterMap B.told?).trans ?_
      rw [List.filterMap_append, List.filter_append, tells]
      exact told.append_right _
  | change may => exact ⟨items, ordered, past, covers.change may leads, told⟩

/-- Whatever system comes about, there are items that tell of it. -/
theorem Covers.reached {s : σ} (covers : B.Covers A) (first : B.leads [] s)
    (reached : A.Reaches s w) : ∃ items, B.Tells items w := by
  obtain ⟨now, run⟩ := reached
  induction run with
  | refl => exact ⟨[], .nil, nofun, first, .refl _⟩
  | tail _ next ih =>
    obtain ⟨items, tells⟩ := ih
    exact covers.next tells next

end Account

end MarketFeed.Simulation
