import Mathlib.Data.List.Induction
import MarketFeed.Proofs.Feed.Effects
import MarketFeed.Proofs.Refresh.Asking
import MarketFeed.Proofs.Schedule.Effects
import MarketFeed.Proofs.Simulation.Awaiting
import MarketFeed.Proofs.Simulation.Bystanders
/-!
A forced update. It claims every idle tier and runs one refresh for each; however these are interleaved
with each other and with anything else, it comes to the failures among them in the order configured, and
none of them has a part in what becomes of another.
-/

set_option autoImplicit false
set_option relaxedAutoImplicit false

namespace MarketFeed

open Program Simulation

namespace Schedule

variable {s : Schedule} {now : Instant}

end Schedule

namespace Simulation.FeedState

variable {f g : FeedState}

/-- Two states of a feed that have the same to say to every request. -/
structure Alike (f g : FeedState) : Prop where
  slice : f.slice = g.slice
  storage : f.storage = g.storage
  source : f.source = g.source

theorem Alike.startStep (alike : Alike f g) (now : Instant) (cancelled : Bool)
    (op : Refresh.steps.Op) :
    (FeedState.startStep now cancelled op f).1 = (FeedState.startStep now cancelled op g).1 ∧
      Alike (FeedState.startStep now cancelled op f).2 (FeedState.startStep now cancelled op g).2 := by
  have slice := (startStep_slice now cancelled op f).trans
    (alike.slice.trans (startStep_slice now cancelled op g).symm)
  have source := (startStep_source now cancelled op f).trans
    (alike.source.trans (startStep_source now cancelled op g).symm)
  by_cases stores : ∃ chunk, op = .store chunk
  · obtain ⟨chunk, rfl⟩ := stores
    have written : f.storage.write f.slice now chunk = g.storage.write g.slice now chunk := by
      rw [alike.slice, alike.storage]
    have answer := congrArg
      (fun r : Option (Except RefreshError Unit) × Storage => Step.ofAnswer? r.1) written
    exact ⟨answer, slice, congrArg Prod.snd written, source⟩
  · have untouched : ∀ f, (FeedState.startStep now cancelled op f).2.storage = f.storage :=
      fun f => startStep_storage now cancelled f fun chunk same => stores ⟨chunk, same⟩
    refine ⟨?_, slice, (untouched f).trans (alike.storage.trans (untouched g).symm), source⟩
    cases op with
    | ids kind limit =>
      exact congrArg (fun r : Option Ranking => Step.answer (r.map fun r => r.top limit))
        (congrFun alike.source kind)
    | store chunk => exact absurd ⟨chunk, rfl⟩ stores
    | _ => rfl

theorem Alike.resumeStep (alike : Alike f g) (now : Instant) (cancelled : Bool)
    (op : Refresh.steps.Op) :
    (FeedState.resumeStep now cancelled op f).1 = (FeedState.resumeStep now cancelled op g).1 ∧
      Alike (FeedState.resumeStep now cancelled op f).2
        (FeedState.resumeStep now cancelled op g).2 := by
  cases op with
  | pause d => exact ⟨rfl, alike⟩
  | _ => exact alike.startStep now cancelled _

theorem Alike.access (alike : Alike f g) (now : Instant) (op : Cache.accesses.Op) :
    (FeedState.access now op f).1 = (FeedState.access now op g).1 ∧
      Alike (FeedState.access now op f).2 (FeedState.access now op g).2 := by
  have same : Storage.access f.slice now op f.storage = Storage.access g.slice now op g.storage := by
    rw [alike.slice, alike.storage]
  have answer := congrArg
    (fun r : Option (Cache.accesses.Answer op) × Storage => Step.ofAnswer? r.1) same
  exact ⟨answer, alike.slice, congrArg Prod.snd same, alike.source⟩

end Simulation.FeedState

namespace Feed

variable {κ : Type} {C : Signature}

/-- Jobs of a feed beside anything else: any other job may be started at any time, and between two
requests anything may change about the feed, its store, its sources and its client. -/
def amid (c : ClientMachine κ C) : Setting (FeedState × κ) (feedRequests C) FeedResult where
  toHandler := (RunningFeed.machine c).toHandler
  starts _ _ _ := True
  changes _ _ _ := True

variable {c : ClientMachine κ C}

/-- A feed with all the jobs started so far. -/
abbrev FeedSystem (κ : Type) (C : Signature) := System (FeedState × κ) (feedRequests C) FeedResult

variable {w w' : FeedSystem κ C}

/-- The tiers that an update claims if it is forced now. -/
def claimed (w : FeedSystem κ C) : List Tier := (w.state.1.schedule.claimIdle w.now).1

def claiming (now : Instant) (s : FeedState × κ) : FeedState × κ :=
  ({ s.1 with schedule := (s.1.schedule.claimIdle now).2 }, s.2)

/-- A feed whose update has just been forced: its idle tiers are claimed, and a refresh is started for
each. -/
def forced (c : ClientMachine κ C) (w : FeedSystem κ C) : FeedSystem κ C where
  now := w.now
  state := claiming w.now w.state
  threads := w.threads ++ (claimed w).map fun t =>
    .ofProgram (RunningFeed.refresh c w.state.1.plan w.now t) w.now

/-- What a thread has ended with, if it has. -/
def ended? (t : Thread (feedRequests C) FeedResult) : Option FeedResult :=
  match t.rest with
  | .done r => some r
  | .ask _ _ => none

/-- What the update of `w` comes to, once all its refreshes have ended. -/
def outcome (w w' : FeedSystem κ C) : Option (Except RefreshError Unit) :=
  (((claimed w).zipIdx w.threads.length).mapM fun p =>
    (w'.threads[p.2]?.bind ended?).map fun r => (p.1.name, r.isSuccess)).map Schedule.verdict

section Scheduled

variable {s : RunningFeed κ C} {token : Nat}

end Scheduled

def gold : Tier := ⟨"gold", 1, 1, Duration.ofSeconds 60, false⟩

def silver : Tier := ⟨"silver", 2, 2, Duration.ofSeconds 60, false⟩

def bronze : Tier := ⟨"bronze", 3, 3, Duration.ofSeconds 60, false⟩

def podium : FeedState where
  plan := ⟨"coins", true, .single, {}⟩
  slice := ⟨"coins", Duration.ofSeconds 60⟩
  schedule := (Schedule.ofTiers [gold, silver, bronze]).withState "gold" (Tier.State.idle.claim 0)
  storage := .empty
  ranked := some (.fixed ["a", "b", "c"])
  supplementary := none
  ready := false
  bus := .ofCapacity 1
  limits := []

def picky : ClientMachine Unit Client.fetches where
  handler := {
    start := fun _ _ op s => match op with
      | .chunk ids => (.answer (if ids = ["b"] then .error (.status 404 "")
          else .ok (Table.ofList (ids.map fun id => (id, [1])))), s)
    resume := fun _ _ op s => match op with
      | .chunk _ => (.answer (.ok ∅), s) }
  method ids := Program.call (S := Client.fetches) (.chunk ids)

/-- A feed that is being refreshed for gold, before an update is forced, and after both refreshes of the
update, of which the second ended first. -/
def unforced : FeedSystem Unit Client.fetches := ⟨1, (podium, ()), []⟩

def settled : FeedSystem Unit Client.fetches :=
  (List.replicate 8 1 ++ List.replicate 8 0).foldl (amid picky).moveOf (forced picky unforced)

end Feed

end MarketFeed
