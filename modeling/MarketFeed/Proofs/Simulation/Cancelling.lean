import MarketFeed.Proofs.Program.Waiting
import MarketFeed.Proofs.Simulation.Interleaving
/-!
Cancelling a thread that waits. The surroundings end its wait with the answer of a cancellation, and a
program that heeds its token asks for nothing afterwards.
-/

set_option autoImplicit false
set_option relaxedAutoImplicit false

namespace MarketFeed.Simulation

variable {σ τ α : Type} {S T : Signature} {w : Waits S} {stop : α → Prop}

/-- Surroundings in which only the waits of `w` take time, and in which a wait that has begun ends
without effect, with the answer of its cancellation, if the token is cancelled by the time it ends. -/
structure Handler.Heeds (h : Handler σ S) (w : Waits S) : Prop where
  ends : ∀ now op s a, w op = some a → h.resume now true op s = (.answer a, s)
  atOnce : ∀ now cancelled op s until_, w op = none →
    (h.start now cancelled op s).1 ≠ .wait until_

namespace Handler

theorem Heeds.sum {h : Handler σ S} {k : Handler σ T} {v : Waits T} (first : h.Heeds w)
    (second : k.Heeds v) : (h.sum k).Heeds (w.sum v) where
  ends now op s a waited := by
    cases op with
    | inl op => exact first.ends now op s a waited
    | inr op => exact second.ends now op s a waited
  atOnce now cancelled op s until_ never := by
    cases op with
    | inl op => exact first.atOnce now cancelled op s until_ never
    | inr op => exact second.atOnce now cancelled op s until_ never

theorem Heeds.onFirst {h : Handler σ S} (heeds : h.Heeds w) :
    (h.onFirst (τ := τ)).Heeds w where
  ends now op s a waited := by
    show (let r := h.resume now true op s.1; (r.1, r.2, s.2)) = _
    rw [heeds.ends now op s.1 a waited]
  atOnce now cancelled op s until_ never := heeds.atOnce now cancelled op s.1 until_ never

theorem Heeds.onSecond {h : Handler τ S} (heeds : h.Heeds w) :
    (h.onSecond (σ := σ)).Heeds w where
  ends now op s a waited := by
    show (let r := h.resume now true op s.2; (r.1, s.1, r.2)) = _
    rw [heeds.ends now op s.2 a waited]
  atOnce now cancelled op s until_ never := heeds.atOnce now cancelled op s.2 until_ never

end Handler

theorem Setting.Reaches.waits {A : Setting σ S α} (heeds : A.toHandler.Heeds w) {s : σ}
    {v : System σ S α} (reached : A.Reaches s v) :
    ∀ t ∈ v.threads, t.pose = .waiting → ∃ op next a, t.rest = .ask op next ∧ w op = some a := by
  obtain ⟨now, run⟩ := reached
  induction run with
  | refl => simp
  | @tail v v' _ next ih =>
    intro t' member waiting
    rcases next.mem member with ⟨t, old, rfl | rfl | rfl⟩ | ⟨p, -, rfl⟩
    · exact ih t' old waiting
    · exact ih t old waiting
    · rcases t.move_cases A.toHandler v.now v.state with still | ⟨op, next, asks, -, moved⟩
      · rw [still] at waiting ⊢
        exact ih t old waiting
      · rw [moved] at waiting ⊢
        cases done : (t.handled A.toHandler v.now op v.state).1 with
        | answer a =>
          rw [done] at waiting
          cases waiting
        | cancelling a =>
          rw [done] at waiting
          cases waiting
        | breakDown =>
          rw [done] at waiting
          cases waiting
        | wait until_ =>
          by_cases before : t.pose = .waiting
          · exact ih t old before
          · rw [Thread.handled, if_neg before] at done
            cases waits : w op with
            | some a => exact ⟨op, next, a, asks, waits⟩
            | none => exact absurd done (heeds.atOnce _ _ op _ until_ waits)
    · cases waiting

/-- A thread that waits with its token cancelled, for a request that such a wait answers with `a`. -/
structure Thread.Stopping (t : Thread S α) (w : Waits S) (op : S.Op) (a : S.Answer op) : Prop where
  asks : ∃ next, t.rest = .ask op next
  waited : w op = some a
  waits : t.pose = .waiting
  cancelled : t.cancelled = true

namespace Thread.Stopping

variable {t : Thread S α} {op : S.Op} {a : S.Answer op}

theorem move {h : Handler σ S} (stopping : t.Stopping w op a) (heeds : h.Heeds w)
    (obeys : t.rest.Heeds w stop) :
    ∃ r, stop r ∧ ∀ now s, t.move h now s = (t.answered now op a (.done r), s) := by
  obtain ⟨next, asks⟩ := stopping.asks
  rw [asks] at obeys
  obtain ⟨r, ended, stopped⟩ := obeys.1 a stopping.waited
  refine ⟨r, stopped, fun now s => ?_⟩
  have handled : t.handled h now op s = (.answer a, s) := by
    rw [Thread.handled, if_pos stopping.waits, stopping.cancelled]
    exact heeds.ends now op s a stopping.waited
  have present : t.pose ≠ .gone := by simp [stopping.waits]
  rw [Thread.move_ask h now s asks present, handled]
  exact congrArg (fun p => (t.answered now op a p, s)) ended

/-- In whatever follows, the thread either has not moved yet, or it has ended with that one answer. -/
theorem leads {A : Setting σ S α} {v v' : System σ S α} {i : Nat} (run : A.Leads v v')
    (found : v.threads[i]? = some t) (stopping : t.Stopping w op a) {r : α}
    (moves : ∀ now s, t.move A.toHandler now s = (t.answered now op a (.done r), s)) :
    v'.threads[i]? = some t ∨
      ∃ now, v'.threads[i]? = some (t.answered now op a (.done r)) := by
  induction run with
  | refl => exact .inl found
  | tail _ next ih =>
    rcases ih with found | ⟨now, found⟩
    · rcases next.found found with same | cancelled | moved
      · exact .inl same
      · rw [show ({ t with cancelled := true } : Thread S α) = t by
          rw [← stopping.cancelled]] at cancelled
        exact .inl cancelled
      · rw [moves] at moved
        exact .inr ⟨_, moved⟩
    · right
      refine ⟨now, ?_⟩
      rcases next.found found with same | cancelled | moved
      · exact same
      · rw [cancelled]
        congr 1
        show ({ t.answered now op a (.done r) with cancelled := true } : Thread S α) = _
        rw [← stopping.cancelled]
        rfl
      · rw [Thread.move_done _ _ _ rfl] at moved
        exact moved

end Thread.Stopping

end MarketFeed.Simulation
