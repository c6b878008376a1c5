import MarketFeed.Proofs.Simulation.Interleaving
/-!
A scheduler among all the ways in which programs can be interleaved. Its jobs are threads of a system,
numbered in the order in which they were started, and whatever it does, from the turn of one job to the
wait for several, is one way for the system to go on.
-/

set_option autoImplicit false
set_option relaxedAutoImplicit false

namespace MarketFeed.Simulation

variable {σ α : Type} {S : Signature} {A : Setting σ S α} {m : Machine σ S α}

structure Setting.Includes (A : Setting σ S α) (m : Machine σ S α) : Prop where
  handler : A.toHandler = m.toHandler
  changes : ∀ now s, A.changes now s (m.ring now s).2
  starts : ∀ now s, ∀ p ∈ (m.ring now s).1, A.starts now (m.ring now s).2 p

theorem Setting.leads_iterate {v : System σ S α} {i : Nat} {t : Thread S α}
    (found : v.threads[i]? = some t) (n : Nat) :
    A.Leads v ⟨v.now,
      ((fun x : Thread S α × σ => x.1.move A.toHandler v.now x.2)^[n] (t, v.state)).2,
      v.threads.set i
        ((fun x : Thread S α × σ => x.1.move A.toHandler v.now x.2)^[n] (t, v.state)).1⟩ := by
  obtain ⟨inside, here⟩ := List.getElem?_eq_some_iff.mp found
  induction n generalizing v t with
  | zero =>
    have same : v.threads.set i t = v.threads := here ▸ List.set_getElem_self inside
    rw [Function.iterate_zero, id, same]
    exact .refl
  | succ n ih =>
    have inside' : i < (v.threads.set i (t.move A.toHandler v.now v.state).1).length := by
      rw [List.length_set]
      exact inside
    have further := ih (v := ⟨v.now, (t.move A.toHandler v.now v.state).2,
      v.threads.set i (t.move A.toHandler v.now v.state).1⟩) (List.getElem?_set_self inside)
      inside' (List.getElem_set_self inside')
    rw [List.set_set] at further
    exact .head (.move found) further

/-! ### Turns -/

theorem turn_waits {h : Handler σ S} {now : Instant} {p q : Program S α} {resumed cancelled : Bool}
    {s : σ} {wake : Wake} (waits : (turn h now p resumed cancelled s).1 = .waiting q wake) :
    (∀ a, q ≠ .done a) ∧ wake ≠ .ready := by
  induction p generalizing resumed cancelled s with
  | done a => cases waits
  | ask op next ih =>
    rw [turn] at waits
    split at waits
    · exact ih _ waits
    · exact ih _ waits
    · cases waits
      refine ⟨fun a ended => ?_, Wake.noConfusion⟩
      cases ended
    · cases waits

theorem Thread.Onward.done {t t' : Thread S α} (onward : t.Onward t') {a : α}
    (ended : t.rest = .done a) : t'.rest = .done a := by
  obtain ⟨more, -, after⟩ := onward.more
  rw [ended] at after
  generalize more.map Timed.exchanged = history at after
  generalize t'.rest = left at after ⊢
  cases after
  rfl

namespace Scheduler

variable {w : Scheduler σ S α}

theorem cancel_eq (w : Scheduler σ S α) (token : Nat) :
    ∃ tokens, w.cancel token = { w with tokens } ∧ tokens.length = w.tokens.length := by
  rw [cancel]
  split
  · exact ⟨w.tokens, rfl, rfl⟩
  · exact ⟨_, rfl, List.length_set⟩

theorem isCancelled_pass {token : Nat} (cancelled : w.isCancelled token = true) {now : Instant}
    (later : w.now ≤ now) : { w with now }.isCancelled token = true := by
  rw [isCancelled] at cancelled ⊢
  split at cancelled
  · rename_i t found
    rw [found]
    exact decide_eq_true (Nat.le_trans (of_decide_eq_true cancelled) later)
  · cases cancelled

theorem isCancelled_cancel {token other : Nat} (inside : token < w.tokens.length)
    (cancelled : other = token ∨ w.isCancelled other = true) :
    (w.cancel token).isCancelled other = true := by
  rw [cancel]
  split
  · rename_i already
    rcases cancelled with rfl | cancelled
    · exact already
    · exact cancelled
  · by_cases same : other = token
    · rw [isCancelled, same, List.getElem?_set_self inside]
      exact decide_eq_true (Nat.le_refl _)
    · have cancelled := cancelled.resolve_left same
      rw [isCancelled] at cancelled ⊢
      rw [List.getElem?_set_ne (Ne.symm same)]
      exact cancelled

theorem le_of_nextEvent {t : Instant} (event : w.nextEvent = some t) : w.now ≤ t := by
  have ahead : ∀ (times : List Instant) (acc : Option Instant),
      (∀ u, acc = some u → w.now ≤ u) → ∀ u, times.foldl
        (fun acc t => if w.now < t then earlier acc (some t) else acc) acc = some u → w.now ≤ u := by
    intro times
    induction times with
    | nil => exact fun _ past => past
    | cons t rest ih =>
      intro acc past
      refine ih _ fun u found => ?_
      dsimp only at found
      split at found
      · rename_i later
        cases acc with
        | none =>
          cases found
          exact Nat.le_of_lt later
        | some u' =>
          cases found
          exact Nat.le_min.mpr ⟨past u' rfl, Nat.le_of_lt later⟩
      · exact past u found
  exact ahead _ none nofun t event

def turnOf (m : Machine σ S α) (w : Scheduler σ S α) (j : Job S α) : Turn S α × Bool × σ :=
  turn m.toHandler w.now j.program (j.wake != .ready) (w.isCancelled j.token) w.state

/-- What a turn of a job leaves, apart from what it does to the job itself. -/
def turned (m : Machine σ S α) (w : Scheduler σ S α) (j : Job S α) : Scheduler σ S α :=
  if (turnOf m w j).2.1 then { w with state := (turnOf m w j).2.2 }.cancel j.token
  else { w with state := (turnOf m w j).2.2 }

theorem turned_eq (m : Machine σ S α) (w : Scheduler σ S α) (j : Job S α) :
    ∃ tokens, turned m w j = { w with
        state := (turnOf m w j).2.2
        tokens } ∧ tokens.length = w.tokens.length := by
  rw [turned]
  split
  · exact cancel_eq _ j.token
  · exact ⟨w.tokens, rfl, rfl⟩

variable {m : Machine σ S α} {j : Job S α}

theorem runJob_of_ended {a : α} (ended : (turnOf m w j).1 = .ended a) :
    w.runJob m j =
      { turned m w j with results := (turned m w j).results ++ [(j.number, a)] } := by
  rw [turnOf] at ended
  simp only [runJob, ended]
  rfl

theorem runJob_of_broken (broken : (turnOf m w j).1 = .broken) :
    w.runJob m j = { turned m w j with broken := (turned m w j).broken ++ [j.number] } := by
  rw [turnOf] at broken
  simp only [runJob, broken]
  rfl

theorem runJob_of_waiting {p : Program S α} {wake : Wake}
    (waits : (turnOf m w j).1 = .waiting p wake) :
    w.runJob m j =
      { turned m w j with jobs := (turned m w j).jobs ++ [{ j with program := p, wake }] } := by
  rw [turnOf] at waits
  simp only [runJob, waits]
  rfl

end Scheduler

/-- A thread stands for a job, though it may not have noticed yet that its token is cancelled. -/
structure Job.Shows (j : Job S α) (cancelled : Bool) (t : Thread S α) : Prop where
  rest : t.rest = j.program
  pose : (t.pose == .waiting) = (j.wake != .ready)
  present : t.pose ≠ .gone
  heeds : t.cancelled = true → cancelled = true

/-- A scheduler follows a system: the threads stand for its jobs, among them those that have yet to take
their turn, for those that have ended with a result, and for those that broke down. -/
structure Scheduler.Follows (pending : List (Job S α)) (w : Scheduler σ S α) (v : System σ S α) :
    Prop where
  now : v.now = w.now
  state : v.state = w.state
  count : v.threads.length = w.started
  jobs : ∀ j ∈ pending ++ w.jobs, ∃ t, v.threads[j.number]? = some t ∧
    j.Shows (w.isCancelled j.token) t
  distinct : ((pending ++ w.jobs).map Job.number).Nodup
  results : ∀ r ∈ w.results, ∃ t, v.threads[r.1]? = some t ∧ t.rest = .done r.2
  broken : ∀ i ∈ w.broken, ∃ t, v.threads[i]? = some t ∧ t.BrokeDown
  tokens : ∀ j ∈ pending ++ w.jobs, j.token < w.tokens.length
  alarms : ∀ a ∈ w.alarms, a.token < w.tokens.length

theorem Scheduler.perm_later (pending jobs : List (Job S α)) (j : Job S α) :
    (pending ++ (jobs ++ [j])).Perm (j :: pending ++ jobs) := by
  rw [← List.append_assoc]
  exact List.perm_append_singleton _ _

namespace Scheduler.Follows

variable {pending : List (Job S α)} {w : Scheduler σ S α} {v : System σ S α} {j : Job S α}

private theorem results_leads (follows : w.Follows pending v) {v' : System σ S α}
    (leads : A.Leads v v') :
    ∀ r ∈ w.results, ∃ t, v'.threads[r.1]? = some t ∧ t.rest = .done r.2 := by
  intro r member
  obtain ⟨t, found, ended⟩ := follows.results r member
  obtain ⟨t', found', onward⟩ := leads.onward found
  exact ⟨t', found', onward.done ended⟩

private theorem broken_leads (follows : w.Follows pending v) {v' : System σ S α}
    (leads : A.Leads v v') :
    ∀ i ∈ w.broken, ∃ t, v'.threads[i]? = some t ∧ t.BrokeDown := by
  intro i member
  obtain ⟨t, found, broke⟩ := follows.broken i member
  exact leads.brokeDown found broke

theorem result? (follows : w.Follows pending v) {number : Nat} {a : α}
    (ended : w.result? number = some a) :
    ∃ t, v.threads[number]? = some t ∧ t.rest = .done a := by
  rw [Scheduler.result?, Option.map_eq_some_iff] at ended
  obtain ⟨⟨other, _⟩, found, rfl⟩ := ended
  have same : other = number := eq_of_beq (List.find?_some found :)
  exact same ▸ follows.results _ (List.mem_of_find?_eq_some found)

private theorem notices (follows : w.Follows pending v) (member : j ∈ pending ++ w.jobs) :
    ∃ t, A.Leads v { v with threads := v.threads.set j.number t } ∧ j.number < v.threads.length ∧
      j.Shows (w.isCancelled j.token) t ∧ t.cancelled = w.isCancelled j.token := by
  obtain ⟨t, found, shows⟩ := follows.jobs j member
  obtain ⟨inside, here⟩ := List.getElem?_eq_some_iff.mp found
  cases cancelled : w.isCancelled j.token with
  | true =>
    exact ⟨{ t with cancelled := true }, .single (.cancel found), inside,
      ⟨shows.rest, shows.pose, shows.present, fun _ => rfl⟩, rfl⟩
  | false =>
    have unheeded : t.cancelled = false := by
      rw [← Bool.not_eq_true]
      intro heeded
      cases cancelled.symm.trans (shows.heeds heeded)
    have same : v.threads.set j.number t = v.threads := here ▸ List.set_getElem_self inside
    refine ⟨t, ?_, inside, cancelled ▸ shows, unheeded⟩
    rw [same]
    exact .refl

private theorem turned_follows (handler : A.toHandler = m.toHandler)
    (follows : w.Follows (j :: pending) v) :
    ∃ v' t', A.Leads v v' ∧ (turned m w j).Follows pending v' ∧
      v'.threads[j.number]? = some t' ∧ t'.Stands (turnOf m w j).1 ∧
      (t'.cancelled = true → (turned m w j).isCancelled j.token = true) := by
  obtain ⟨t, noticed, inside, shows, heeded⟩ := follows.notices (A := A) List.mem_cons_self
  have found : (v.threads.set j.number t)[j.number]? = some t := List.getElem?_set_self inside
  obtain ⟨n, t', steps, stands, token⟩ := t.turn_moves A.toHandler v.now v.state shows.present
  have moved := Setting.leads_iterate (A := A)
    (v := { v with threads := v.threads.set j.number t }) found n
  have same : turn A.toHandler v.now t.rest (t.pose == .waiting) t.cancelled v.state =
      turnOf m w j := by
    rw [handler, follows.now, follows.state, shows.rest, shows.pose, heeded]
    rfl
  rw [same] at steps stands token
  rw [steps, List.set_set] at moved
  have leads := noticed.trans moved
  obtain ⟨tokens, whole, length⟩ := turned_eq m w j
  have inside' : j.token < w.tokens.length := follows.tokens j List.mem_cons_self
  have keeps : ∀ token, w.isCancelled token = true → (turned m w j).isCancelled token = true := by
    intro token cancelled
    rw [turned]
    split
    · exact isCancelled_cancel inside' (.inr cancelled)
    · exact cancelled
  obtain ⟨fresh, distinct⟩ := List.nodup_cons.mp follows.distinct
  refine ⟨_, t', leads, ?_, List.getElem?_set_self inside, stands, fun cancelled => ?_⟩
  · rw [whole] at keeps ⊢
    exact {
      now := follows.now
      state := rfl
      count := List.length_set.trans follows.count
      jobs := by
        intro j' member
        obtain ⟨t', found', shows'⟩ := follows.jobs j' (List.mem_cons_of_mem _ member)
        have other : j.number ≠ j'.number := fun same =>
          fresh (same ▸ List.mem_map_of_mem member)
        exact ⟨t', (List.getElem?_set_ne other).trans found',
          ⟨shows'.rest, shows'.pose, shows'.present, fun heeds => keeps _ (shows'.heeds heeds)⟩⟩
      distinct := distinct
      results := follows.results_leads leads
      broken := follows.broken_leads leads
      tokens := fun j' member => length.symm ▸ follows.tokens j' (List.mem_cons_of_mem _ member)
      alarms := fun a member => length.symm ▸ follows.alarms a member }
  · rw [turned, ← token, if_pos cancelled]
    exact isCancelled_cancel inside' (.inl rfl)

private theorem add (follows : w.Follows pending v) {t : Thread S α}
    (found : v.threads[j.number]? = some t) (shows : j.Shows (w.isCancelled j.token) t)
    (fresh : j.number ∉ (pending ++ w.jobs).map Job.number) (inside : j.token < w.tokens.length) :
    { w with jobs := w.jobs ++ [j] }.Follows pending v :=
  { follows with
    jobs := by
      rw [← List.append_assoc]
      refine List.forall_mem_append.mpr ⟨follows.jobs, List.forall_mem_singleton.mpr ?_⟩
      exact ⟨t, found, shows⟩
    distinct := by
      rw [← List.append_assoc, List.map_append]
      exact List.nodup_append.mpr ⟨follows.distinct, List.pairwise_singleton _ _,
        fun a here b there => (List.mem_singleton.mp there).symm ▸ fun same => fresh (same ▸ here)⟩
    tokens := by
      rw [← List.append_assoc]
      exact List.forall_mem_append.mpr ⟨follows.tokens, List.forall_mem_singleton.mpr inside⟩ }

private theorem later (follows : w.Follows (j :: pending) v) :
    { w with jobs := w.jobs ++ [j] }.Follows pending v :=
  { follows with
    jobs := fun j' member => follows.jobs j' ((perm_later pending w.jobs j).mem_iff.mp member)
    distinct := ((perm_later pending w.jobs j).map _).nodup_iff.mpr follows.distinct
    tokens := fun j' member => follows.tokens j' ((perm_later pending w.jobs j).mem_iff.mp member) }

theorem runJob (handler : A.toHandler = m.toHandler) (follows : w.Follows (j :: pending) v) :
    ∃ v', A.Leads v v' ∧ (w.runJob m j).Follows pending v' := by
  obtain ⟨v', t', leads, follows', found, stands, heeds⟩ := follows.turned_follows handler
  refine ⟨v', leads, ?_⟩
  cases ended : (turnOf m w j).1 with
  | ended a =>
    rw [ended] at stands
    rw [Scheduler.runJob_of_ended ended]
    exact { follows' with
      results := by
        intro r member
        rcases List.mem_append.mp member with old | new
        · exact follows'.results r old
        · rw [List.mem_singleton.mp new]
          exact ⟨t', found, stands⟩ }
  | broken =>
    rw [ended] at stands
    rw [Scheduler.runJob_of_broken ended]
    exact { follows' with
      broken := List.forall_mem_append.mpr
        ⟨follows'.broken, List.forall_mem_singleton.mpr ⟨t', found, stands⟩⟩ }
  | waiting p wake =>
    rw [ended] at stands
    rw [Scheduler.runJob_of_waiting ended]
    obtain ⟨tokens, same, length⟩ := turned_eq m w j
    have jobs : (turned m w j).jobs = w.jobs := same ▸ rfl
    have inside : j.token < (turned m w j).tokens.length := by
      rw [same]
      exact length ▸ follows.tokens j List.mem_cons_self
    have waits : (t'.pose == .waiting) = (wake != .ready) := by
      rw [stands.2]
      exact (bne_iff_ne.mpr (turn_waits ended).2).symm
    have present : t'.pose ≠ .gone := by
      rw [stands.2]
      exact Pose.noConfusion
    exact follows'.add (j := { j with program := p, wake }) found ⟨stands.1, waits, present, heeds⟩
      (jobs ▸ (List.nodup_cons.mp follows.distinct).1) inside

theorem round (handler : A.toHandler = m.toHandler) (follows : w.Follows [] v) :
    ∃ v', A.Leads v v' ∧ (w.round m).Follows [] v' := by
  have turns : ∀ (pending : List (Job S α)) (w : Scheduler σ S α) (v : System σ S α),
      w.Follows pending v → ∃ v', A.Leads v v' ∧ (pending.foldl (fun w j =>
        if w.canGoOn j then w.runJob m j else { w with jobs := w.jobs ++ [j] }) w).Follows [] v' := by
    intro pending
    induction pending with
    | nil => exact fun w v follows => ⟨v, .refl, follows⟩
    | cons j rest ih =>
      intro w v follows
      rw [List.foldl_cons]
      split
      · obtain ⟨v', leads, follows'⟩ := follows.runJob handler
        obtain ⟨v'', leads', follows''⟩ := ih _ v' follows'
        exact ⟨v'', leads.trans leads', follows''⟩
      · exact ih _ v follows.later
  exact turns w.jobs { w with jobs := [] } v { follows with
    jobs := by
      intro j member
      rw [List.append_nil] at member
      exact follows.jobs j member
    distinct := by
      rw [List.append_nil]
      exact follows.distinct
    tokens := by
      intro j member
      rw [List.append_nil] at member
      exact follows.tokens j member }

theorem start (follows : w.Follows [] v) {token : Nat} (inside : token < w.tokens.length)
    (p : Program S α) :
    (w.start token p).2.Follows [] { v with threads := v.threads ++ [Thread.ofProgram p v.now] } := by
  have stays : ∀ {i : Nat} {t : Thread S α}, v.threads[i]? = some t →
      (v.threads ++ [Thread.ofProgram p v.now])[i]? = some t := fun found =>
    (List.getElem?_append_left (List.getElem?_eq_some_iff.mp found).1).trans found
  have grown : { w with started := w.started + 1 }.Follows []
      { v with threads := v.threads ++ [Thread.ofProgram p v.now] } := { follows with
    count := by
      rw [List.length_append, follows.count]
      rfl
    jobs := by
      intro j member
      obtain ⟨t, found, shows⟩ := follows.jobs j member
      exact ⟨t, stays found, shows⟩
    results := by
      intro r member
      obtain ⟨t, found, ended⟩ := follows.results r member
      exact ⟨t, stays found, ended⟩
    broken := by
      intro i member
      obtain ⟨t, found, broke⟩ := follows.broken i member
      exact ⟨t, stays found, broke⟩ }
  have found : (v.threads ++ [Thread.ofProgram p v.now])[w.started]? =
      some (.ofProgram p v.now) := by
    rw [← follows.count]
    exact List.getElem?_concat_length
  have shows : Job.Shows ⟨w.started, token, p, .ready⟩ (w.isCancelled token)
      (Thread.ofProgram p v.now) := ⟨rfl, rfl, nofun, nofun⟩
  have fresh : w.started ∉ ([] ++ w.jobs).map Job.number := by
    intro member
    obtain ⟨j, there, same⟩ := List.mem_map.mp member
    obtain ⟨t, found, -⟩ := follows.jobs j there
    have := (List.getElem?_eq_some_iff.mp found).1
    rw [same, follows.count] at this
    exact Nat.lt_irrefl _ this
  exact grown.add found shows fresh inside

private theorem startAll (follows : w.Follows [] v) {token : Nat} (inside : token < w.tokens.length)
    {ps : List (Program S α)} (may : ∀ p ∈ ps, A.starts w.now w.state p) :
    (w.startAll token ps).tokens = w.tokens ∧
      ∃ v', A.Leads v v' ∧ (w.startAll token ps).Follows [] v' := by
  induction ps generalizing w v with
  | nil => exact ⟨rfl, v, .refl, follows⟩
  | cons p rest ih =>
    have ⟨first, others⟩ := List.forall_mem_cons.mp may
    rw [← follows.now, ← follows.state] at first
    obtain ⟨tokens, v', leads, follows'⟩ := ih (follows.start inside p) inside others
    exact ⟨tokens, v', .head (.start first) leads, follows'⟩

private theorem runAlarm (includes : A.Includes m) (follows : w.Follows [] v) {a : Alarm}
    (inside : a.token < w.tokens.length) :
    (w.runAlarm m a).tokens = w.tokens ∧
      ∃ v', A.Leads v v' ∧ (w.runAlarm m a).Follows [] v' := by
  rw [Scheduler.runAlarm]
  split
  · refine ⟨rfl, v, .refl, { follows with alarms := ?_ }⟩
    exact List.forall_mem_append.mpr ⟨follows.alarms, List.forall_mem_singleton.mpr inside⟩
  · split
    · exact ⟨rfl, v, .refl, follows⟩
    · have changes := includes.changes v.now v.state
      have rung : { w with
          state := (m.ring w.now w.state).2
          alarms := w.alarms ++ [{ a with next := Instant.after a.next a.period }] }.Follows []
            { v with state := (m.ring v.now v.state).2 } := { follows with
        state := by rw [follows.now, follows.state]
        alarms := List.forall_mem_append.mpr
          ⟨follows.alarms, List.forall_mem_singleton.mpr inside⟩ }
      obtain ⟨tokens, v', leads, follows'⟩ :=
        rung.startAll (A := A) inside (includes.starts w.now w.state)
      exact ⟨tokens, v', .head (.change changes) leads, follows'⟩

private theorem runAlarms (includes : A.Includes m) (follows : w.Follows [] v) :
    ∃ v', A.Leads v v' ∧ (w.runAlarms m).Follows [] v' := by
  have all : ∀ (alarms : List Alarm) (w : Scheduler σ S α) (v : System σ S α),
      (∀ a ∈ alarms, a.token < w.tokens.length) → w.Follows [] v →
        ∃ v', A.Leads v v' ∧ (alarms.foldl (Scheduler.runAlarm m) w).Follows [] v' := by
    intro alarms
    induction alarms with
    | nil => exact fun w v _ follows => ⟨v, .refl, follows⟩
    | cons a rest ih =>
      intro w v inside follows
      have ⟨first, others⟩ := List.forall_mem_cons.mp inside
      obtain ⟨tokens, v', leads, follows'⟩ := follows.runAlarm includes first
      obtain ⟨v'', leads', follows''⟩ := ih _ v' (tokens.symm ▸ others) follows'
      exact ⟨v'', leads.trans leads', follows''⟩
  exact all w.alarms { w with alarms := [] } v follows.alarms
    { follows with alarms := fun _ member => nomatch member }

private theorem settleWithin (includes : A.Includes m) (follows : w.Follows [] v) (allowance : Nat) :
    ∃ v', A.Leads v v' ∧ (w.settleWithin m allowance).Follows [] v' := by
  induction allowance generalizing w v with
  | zero => exact ⟨v, .refl, follows⟩
  | succ allowance ih =>
    rw [Scheduler.settleWithin]
    split
    · obtain ⟨v₁, rings, follows₁⟩ := follows.runAlarms includes
      obtain ⟨v₂, turns, follows₂⟩ := follows₁.round includes.handler
      obtain ⟨v₃, further, follows₃⟩ := ih follows₂
      exact ⟨v₃, (rings.trans turns).trans further, follows₃⟩
    · exact ⟨v, .refl, follows⟩

private theorem pass (follows : w.Follows [] v) {now : Instant} (later : w.now ≤ now) :
    A.Leads v { v with now } ∧ { w with now }.Follows [] { v with now } := by
  refine ⟨.single (.pass (follows.now ▸ later)), { follows with now := rfl, jobs := ?_ }⟩
  intro j member
  obtain ⟨t, found, shows⟩ := follows.jobs j member
  exact ⟨t, found, shows.rest, shows.pose, shows.present,
    fun heeds => isCancelled_pass (shows.heeds heeds) later⟩

/-- Whatever happens until some jobs are over is one way for the system to go on. -/
theorem await (includes : A.Includes m) (follows : w.Follows [] v) (numbers : List Nat) :
    ∃ v', A.Leads v v' ∧ (w.await m numbers).Follows [] v' := by
  have within : ∀ (allowance : Nat) (w : Scheduler σ S α) (v : System σ S α), w.Follows [] v →
      ∃ v', A.Leads v v' ∧ (w.awaitWithin m numbers allowance).Follows [] v' := by
    intro allowance
    induction allowance with
    | zero => exact fun w v follows => ⟨v, .refl, follows⟩
    | succ allowance ih =>
      intro w v follows
      obtain ⟨v₁, settles, follows₁⟩ :=
        follows.settleWithin (A := A) includes Scheduler.allowance
      rw [awaitWithin]
      split
      · exact ⟨v₁, settles, follows₁⟩
      · split
        · rename_i t event
          obtain ⟨passes, follows₂⟩ := follows₁.pass (A := A) (le_of_nextEvent event)
          obtain ⟨v₃, further, follows₃⟩ := ih _ _ follows₂
          exact ⟨v₃, (settles.trans passes).trans further, follows₃⟩
        · exact ⟨v₁, settles, follows₁⟩
  exact within Scheduler.allowance w v follows

end Scheduler.Follows

end MarketFeed.Simulation
