import MarketFeed.Proofs.Simulation.Interleaving
/-!
What a move of one thread means to all the others. Where two states are the same to every request, it
makes no difference to a thread in which of them it moves; so a move that leads from one to the other
goes unnoticed, however long the others go on.
-/

set_option autoImplicit false
set_option relaxedAutoImplicit false

namespace MarketFeed.Simulation

variable {σ α : Type} {S : Signature}

/-- States that are related are the same to every request: it is answered alike in both and leaves them
related. -/
structure Handler.Respects (h : Handler σ S) (R : σ → σ → Prop) : Prop where
  start : ∀ now cancelled op s s', R s s' →
    (h.start now cancelled op s).1 = (h.start now cancelled op s').1 ∧
      R (h.start now cancelled op s).2 (h.start now cancelled op s').2
  resume : ∀ now cancelled op s s', R s s' →
    (h.resume now cancelled op s).1 = (h.resume now cancelled op s').1 ∧
      R (h.resume now cancelled op s).2 (h.resume now cancelled op s').2

variable {h : Handler σ S} {R : σ → σ → Prop}

theorem Handler.Respects.handled (respects : h.Respects R) {s s' : σ} (related : R s s')
    (t : Thread S α) (now : Instant) (op : S.Op) :
    (t.handled h now op s).1 = (t.handled h now op s').1 ∧
      R (t.handled h now op s).2 (t.handled h now op s').2 := by
  rw [Thread.handled, Thread.handled]
  split
  · exact respects.resume now t.cancelled op s s' related
  · exact respects.start now t.cancelled op s s' related

theorem Handler.Respects.move (respects : h.Respects R) {s s' : σ} (related : R s s')
    (t : Thread S α) (now : Instant) :
    (t.move h now s).1 = (t.move h now s').1 ∧ R (t.move h now s).2 (t.move h now s').2 := by
  cases left : t.rest with
  | done a =>
    rw [Thread.move_done h now s left, Thread.move_done h now s' left]
    exact ⟨rfl, related⟩
  | ask op next =>
    by_cases gone : t.pose = .gone
    · rw [Thread.move_gone h now s gone, Thread.move_gone h now s' gone]
      exact ⟨rfl, related⟩
    · obtain ⟨answer, further⟩ := respects.handled related t now op
      rw [Thread.move_ask h now s left gone, Thread.move_ask h now s' left gone, answer]
      exact ⟨rfl, further⟩

/-- Two systems that differ in one thread, and in nothing that matters to the others. -/
structure System.Beside (R : σ → σ → Prop) (i : Nat) (v v' : System σ S α) : Prop where
  related : R v.state v'.state
  others : ∀ k, k ≠ i → v.threads[k]? = v'.threads[k]?

variable {A : Setting σ S α} {v v' : System σ S α} {i k : Nat}

theorem System.Beside.moveOf (respects : A.toHandler.Respects R) (beside : v.Beside R i v')
    (now : Instant) (other : k ≠ i) :
    (A.moveOf { v with now } k).Beside R i (A.moveOf { v' with now } k) := by
  have same := beside.others k other
  rw [Setting.moveOf, Setting.moveOf]
  cases found : v.threads[k]? with
  | none =>
    rw [found] at same
    simp only [← same]
    exact ⟨beside.related, beside.others⟩
  | some t =>
    rw [found] at same
    obtain ⟨thread, further⟩ := respects.move beside.related t now
    simp only [← same]
    refine ⟨further, fun l different => ?_⟩
    rw [thread]
    by_cases here : k = l
    · subst here
      rw [List.getElem?_set_self (List.getElem?_eq_some_iff.mp found).1,
        List.getElem?_set_self (List.getElem?_eq_some_iff.mp same.symm).1]
    · rw [List.getElem?_set_ne here, List.getElem?_set_ne here]
      exact beside.others l different

end MarketFeed.Simulation
