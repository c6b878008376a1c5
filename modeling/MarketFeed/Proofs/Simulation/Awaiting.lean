import MarketFeed.Proofs.Simulation.Scheduling
/-!
What a wait for some jobs comes to. A job is never lost: it goes on, its result is known, or it broke
down. A wait ends when its jobs are over or nothing can happen any more, and then every one of them that
did not break down has a result.
-/

set_option autoImplicit false
set_option relaxedAutoImplicit false

namespace MarketFeed.Simulation.Scheduler

variable {σ α : Type} {S : Signature} {m : Machine σ S α} {w w' : Scheduler σ S α}
  {pending : List (Job S α)} {j : Job S α} {number : Nat}

/-! ### Jobs are not lost -/

/-- What has become of a job: it goes on with a program that has not ended, its result is known, or it
broke down. -/
inductive Keeps (pending : List (Job S α)) (w : Scheduler σ S α) (number : Nat) : Prop where
  | working {j : Job S α} (member : j ∈ pending ++ w.jobs) (own : j.number = number)
      (unfinished : ∀ a, j.program ≠ .done a)
  | ended {a : α} (member : (number, a) ∈ w.results)
  | broken (member : number ∈ w.broken)

structure Grown (w w' : Scheduler σ S α) : Prop where
  jobs : w.jobs ⊆ w'.jobs
  results : w.results ⊆ w'.results
  broken : w.broken ⊆ w'.broken

theorem Grown.of_same (jobs : w'.jobs = w.jobs) (results : w'.results = w.results)
    (broken : w'.broken = w.broken) : Grown w w' :=
  ⟨jobs ▸ List.Subset.refl _, results ▸ List.Subset.refl _, broken ▸ List.Subset.refl _⟩

theorem Grown.trans {w'' : Scheduler σ S α} (first : Grown w w') (second : Grown w' w'') :
    Grown w w'' :=
  ⟨List.Subset.trans first.jobs second.jobs, List.Subset.trans first.results second.results,
    List.Subset.trans first.broken second.broken⟩

theorem Keeps.grown (keeps : Keeps pending w number) (grown : Grown w w') :
    Keeps pending w' number := by
  cases keeps with
  | working member own unfinished =>
    refine .working ?_ own unfinished
    exact (List.mem_append.mp member).elim (List.mem_append_left _)
      fun old => List.mem_append_right _ (grown.jobs old)
  | ended member => exact .ended (grown.results member)
  | broken member => exact .broken (grown.broken member)

theorem grown_runJob (m : Machine σ S α) (w : Scheduler σ S α) (j : Job S α) :
    Grown w (w.runJob m j) := by
  obtain ⟨tokens, same, -⟩ := turned_eq m w j
  cases ended : (turnOf m w j).1 with
  | ended a =>
    rw [runJob_of_ended ended, same]
    exact ⟨List.Subset.refl _, List.subset_append_left _ _, List.Subset.refl _⟩
  | broken =>
    rw [runJob_of_broken ended, same]
    exact ⟨List.Subset.refl _, List.Subset.refl _, List.subset_append_left _ _⟩
  | waiting p wake =>
    rw [runJob_of_waiting ended, same]
    exact ⟨List.subset_append_left _ _, List.Subset.refl _, List.Subset.refl _⟩

theorem keeps_runJob (m : Machine σ S α) (w : Scheduler σ S α) (j : Job S α) :
    Keeps pending (w.runJob m j) j.number := by
  cases ended : (turnOf m w j).1 with
  | ended a =>
    rw [runJob_of_ended ended]
    exact .ended (List.mem_append_right _ (List.mem_singleton_self _))
  | broken =>
    rw [runJob_of_broken ended]
    exact .broken (List.mem_append_right _ (List.mem_singleton_self _))
  | waiting p wake =>
    rw [runJob_of_waiting ended]
    have last : { j with program := p, wake } ∈ (turned m w j).jobs ++ [{ j with program := p, wake }] :=
      List.mem_append_right _ (List.mem_singleton_self _)
    exact .working (List.mem_append_right _ last) rfl (turn_waits ended).1

theorem Keeps.runJob (keeps : Keeps (j :: pending) w number) :
    Keeps pending (w.runJob m j) number := by
  cases keeps with
  | working member own unfinished =>
    rcases List.mem_cons.mp member with rfl | others
    · exact own ▸ keeps_runJob m w _
    · exact (Keeps.working others own unfinished).grown (grown_runJob m w j)
  | ended member => exact .ended ((grown_runJob m w j).results member)
  | broken member => exact .broken ((grown_runJob m w j).broken member)

private theorem Keeps.later (keeps : Keeps (j :: pending) w number) :
    Keeps pending { w with jobs := w.jobs ++ [j] } number := by
  cases keeps with
  | working member own unfinished =>
    exact .working ((perm_later pending w.jobs j).mem_iff.mpr member) own unfinished
  | ended member => exact .ended member
  | broken member => exact .broken member

theorem Keeps.round (keeps : Keeps [] w number) : Keeps [] (w.round m) number := by
  have turns : ∀ (pending : List (Job S α)) (w : Scheduler σ S α), Keeps pending w number →
      Keeps [] (pending.foldl (fun w j =>
        if w.canGoOn j then w.runJob m j else { w with jobs := w.jobs ++ [j] }) w) number := by
    intro pending
    induction pending with
    | nil => exact fun w keeps => keeps
    | cons j rest ih =>
      intro w keeps
      rw [List.foldl_cons]
      split
      · exact ih _ keeps.runJob
      · exact ih _ keeps.later
  refine turns w.jobs { w with jobs := [] } ?_
  cases keeps with
  | working member own unfinished =>
    exact .working (List.mem_append_left _ member) own unfinished
  | ended member => exact .ended member
  | broken member => exact .broken member

theorem grown_startAll (w : Scheduler σ S α) (token : Nat) (ps : List (Program S α)) :
    Grown w (w.startAll token ps) := by
  induction ps generalizing w with
  | nil => exact .of_same rfl rfl rfl
  | cons p rest ih =>
    have started : Grown w (w.start token p).2 :=
      ⟨List.subset_append_left _ _, List.Subset.refl _, List.Subset.refl _⟩
    exact started.trans (ih _)

theorem grown_runAlarm (m : Machine σ S α) (w : Scheduler σ S α) (a : Alarm) :
    Grown w (w.runAlarm m a) := by
  rw [runAlarm]
  split
  · exact .of_same rfl rfl rfl
  · split
    · exact .of_same rfl rfl rfl
    · refine Grown.trans ?_ (grown_startAll _ a.token _)
      exact .of_same rfl rfl rfl

theorem grown_runAlarms (m : Machine σ S α) (w : Scheduler σ S α) : Grown w (w.runAlarms m) := by
  have all : ∀ (alarms : List Alarm) (w : Scheduler σ S α),
      Grown w (alarms.foldl (Scheduler.runAlarm m) w) := by
    intro alarms
    induction alarms with
    | nil => exact fun w => .of_same rfl rfl rfl
    | cons a rest ih => exact fun w => (grown_runAlarm m w a).trans (ih _)
  refine Grown.trans ?_ (all w.alarms { w with alarms := [] })
  exact .of_same rfl rfl rfl

theorem Keeps.settleWithin (keeps : Keeps [] w number) (allowance : Nat) :
    Keeps [] (w.settleWithin m allowance) number := by
  induction allowance generalizing w with
  | zero => exact keeps
  | succ allowance ih =>
    rw [Scheduler.settleWithin]
    split
    · exact ih (keeps.grown (grown_runAlarms m w)).round
    · exact keeps

theorem Keeps.await (keeps : Keeps [] w number) (numbers : List Nat) :
    Keeps [] (w.await m numbers) number := by
  have within : ∀ (allowance : Nat) (w : Scheduler σ S α), Keeps [] w number →
      Keeps [] (w.awaitWithin m numbers allowance) number := by
    intro allowance
    induction allowance with
    | zero => exact fun w keeps => keeps
    | succ allowance ih =>
      intro w keeps
      have settled : Keeps [] (w.settle m) number := keeps.settleWithin Scheduler.allowance
      rw [awaitWithin]
      split
      · exact settled
      · split
        · exact ih _ (settled.grown (.of_same rfl rfl rfl))
        · exact settled
  exact within Scheduler.allowance w keeps

variable {numbers : List Nat} {n : Nat} {v : Scheduler σ S α}

/-- What happens next while some jobs are awaited: all that can happen now, or otherwise a jump to the
next event, unless the jobs are over. -/
def advance? (m : Machine σ S α) (numbers : List Nat) (w : Scheduler σ S α) :
    Option (Scheduler σ S α) :=
  if w.isBusy then some ((w.runAlarms m).round m)
  else if w.isOver numbers then none
  else w.nextEvent.map fun t => { w with now := t }

/-- A wait for some jobs that comes to its end in a number of steps. -/
inductive Halts (m : Machine σ S α) (numbers : List Nat) :
    Nat → Scheduler σ S α → Scheduler σ S α → Prop where
  | here {w : Scheduler σ S α} (still : w.advance? m numbers = none) : Halts m numbers 0 w w
  | next {n : Nat} {w w' v : Scheduler σ S α} (step : w.advance? m numbers = some w')
      (rest : Halts m numbers n w' v) : Halts m numbers (n + 1) w v

theorem Halts.still (halts : Halts m numbers n w v) : v.advance? m numbers = none := by
  induction halts with
  | here still => exact still
  | next step rest ih => exact ih

theorem idle_of_still (still : w.advance? m numbers = none) : w.isBusy = false := by
  rw [← Bool.not_eq_true]
  intro busy
  rw [advance?, if_pos busy] at still
  cases still

theorem settleWithin_of_idle (idle : w.isBusy = false) (allowance : Nat) :
    w.settleWithin m allowance = w := by
  cases allowance with
  | zero => rfl
  | succ allowance => rw [settleWithin, idle, if_neg Bool.false_ne_true]

private theorem Halts.settleWithin (halts : Halts m numbers n w v) {allowance : Nat}
    (enough : n ≤ allowance) :
    (w.settleWithin m allowance).isBusy = false ∧
      ∃ k ≤ n, Halts m numbers k (w.settleWithin m allowance) v := by
  induction halts generalizing allowance with
  | here still =>
    rw [settleWithin_of_idle (idle_of_still still)]
    exact ⟨idle_of_still still, 0, Nat.le_refl 0, .here still⟩
  | @next n w w' v step rest ih =>
    cases busy : w.isBusy with
    | false =>
      rw [settleWithin_of_idle busy]
      exact ⟨busy, n + 1, Nat.le_refl _, .next step rest⟩
    | true =>
      obtain ⟨left, rfl⟩ := Nat.exists_eq_add_of_le' (Nat.le_trans (Nat.succ_pos n) enough)
      rw [advance?, if_pos busy] at step
      cases step
      obtain ⟨idle, k, le, halts⟩ := ih (Nat.le_of_succ_le_succ enough)
      rw [Scheduler.settleWithin, if_pos busy]
      exact ⟨idle, k, Nat.le_succ_of_le le, halts⟩

/-- A wait that can come to its end within the allowance goes on until it does. -/
theorem Halts.await (halts : Halts m numbers n w v) (within : n < allowance) :
    w.await m numbers = v := by
  have all : ∀ (jumps n : Nat) (w : Scheduler σ S α), Halts m numbers n w v → n < allowance →
      n < jumps → w.awaitWithin m numbers jumps = v := by
    intro jumps
    induction jumps with
    | zero => exact fun n w _ _ enough => absurd enough (Nat.not_lt_zero n)
    | succ jumps ih =>
      intro n w halts within enough
      obtain ⟨idle, k, le, halts⟩ := halts.settleWithin (Nat.le_of_lt within)
      rw [awaitWithin, settle]
      generalize Scheduler.settleWithin m allowance w = w at idle halts ⊢
      cases halts with
      | here still =>
        rw [advance?, idle, if_neg Bool.false_ne_true] at still
        split at still
        · exact if_pos ‹_›
        · rename_i going
          rw [if_neg going, Option.map_eq_none_iff.mp still]
      | @next k _ w' _ step rest =>
        rw [advance?, idle, if_neg Bool.false_ne_true] at step
        split at step
        · cases step
        · rename_i going
          obtain ⟨t, event, rfl⟩ := Option.map_eq_some_iff.mp step
          rw [if_neg going, event]
          have fewer : k < n := le
          exact ih k _ rest (Nat.lt_trans fewer within)
            (Nat.lt_of_lt_of_le fewer (Nat.le_of_lt_succ enough))
  exact all allowance n w halts within within

end MarketFeed.Simulation.Scheduler
