import MarketFeed.Proofs.Cache.Entries
import MarketFeed.Simulation.RunningFeed
/-!
What the requests of a refresh do to its feed: which of them marks it as ready, which of them changes
the schedule, and which of them changes the store.
-/

set_option autoImplicit false
set_option relaxedAutoImplicit false

namespace MarketFeed.Simulation.FeedState

theorem resumeStep_state (now : Instant) (cancelled : Bool) (op : Refresh.Op) (f : FeedState) :
    (resumeStep now cancelled op f).2 = (startStep now cancelled op f).2 := by
  cases op <;> rfl

private theorem startStep_ids (now : Instant) (cancelled : Bool) (source : Refresh.Source)
    (limit : Nat) (f : FeedState) :
    ∃ limits, (startStep now cancelled (.ids source limit) f).2 = { f with limits := limits } := by
  rw [startStep]
  dsimp only
  split
  · exact ⟨_, rfl⟩
  · exact ⟨_, rfl⟩

theorem startStep_slice (now : Instant) (cancelled : Bool) (op : Refresh.Op) (f : FeedState) :
    (startStep now cancelled op f).2.slice = f.slice := by
  cases op with
  | ids source limit =>
    obtain ⟨limits, same⟩ := startStep_ids now cancelled source limit f
    rw [same]
  | _ => rfl

theorem startStep_plan (now : Instant) (cancelled : Bool) (op : Refresh.Op) (f : FeedState) :
    (startStep now cancelled op f).2.plan = f.plan := by
  cases op with
  | ids source limit =>
    obtain ⟨limits, same⟩ := startStep_ids now cancelled source limit f
    rw [same]
  | _ => rfl

theorem startStep_source (now : Instant) (cancelled : Bool) (op : Refresh.Op) (f : FeedState) :
    (startStep now cancelled op f).2.source = f.source := by
  cases op with
  | ids source limit =>
    obtain ⟨limits, same⟩ := startStep_ids now cancelled source limit f
    rw [same]
    rfl
  | _ => rfl

theorem startStep_ready (now : Instant) (cancelled : Bool) {op : Refresh.Op} (f : FeedState)
    (other : op ≠ .markReady) : (startStep now cancelled op f).2.ready = f.ready := by
  cases op with
  | ids source limit =>
    obtain ⟨limits, same⟩ := startStep_ids now cancelled source limit f
    rw [same]
  | markReady => exact absurd rfl other
  | _ => rfl

theorem startStep_schedule (now : Instant) (cancelled : Bool) {op : Refresh.Op} (f : FeedState)
    (other : ∀ tier started succeeded, op ≠ .finish tier started succeeded) :
    (startStep now cancelled op f).2.schedule = f.schedule := by
  cases op with
  | ids source limit =>
    obtain ⟨limits, same⟩ := startStep_ids now cancelled source limit f
    rw [same]
  | finish tier started succeeded => exact absurd rfl (other tier started succeeded)
  | _ => rfl

theorem startStep_storage (now : Instant) (cancelled : Bool) {op : Refresh.Op} (f : FeedState)
    (other : ∀ chunk, op ≠ .store chunk) :
    (startStep now cancelled op f).2.storage = f.storage := by
  cases op with
  | ids source limit =>
    obtain ⟨limits, same⟩ := startStep_ids now cancelled source limit f
    rw [same]
  | store chunk => exact absurd rfl (other chunk)
  | _ => rfl

theorem startStep_store (now : Instant) (cancelled : Bool) (chunk : Payloads) (f : FeedState) :
    (startStep now cancelled (.store chunk) f).2.storage = f.storage ∨
      ∃ store, f.slice.write? f.storage.store now chunk = some store ∧
        startStep now cancelled (.store chunk) f =
          (Step.answer (α := Except RefreshError Unit) (.ok ()),
            { f with storage := { f.storage with store } }) := by
  rcases f.storage.write_cases f.slice now chunk with same | ⟨store, written, whole⟩
  · exact .inl same
  · refine .inr ⟨store, written, ?_⟩
    show (Step.ofAnswer? (f.storage.write f.slice now chunk).1,
      { f with storage := (f.storage.write f.slice now chunk).2 }) = _
    rw [whole]
    rfl

end MarketFeed.Simulation.FeedState
