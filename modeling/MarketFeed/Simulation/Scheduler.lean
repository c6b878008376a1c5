import MarketFeed.Duration
import MarketFeed.Program
import MarketFeed.Signal
/-!
Programs side by side on one clock. The clock stands still while some job can go on, and then jumps
to the next point at which something happens: a wait ends, a token is cancelled, or an alarm goes
off. Jobs take turns in the order in which they were started; in its turn a job goes on until it has
to wait. A job that breaks down is gone without a result.
-/

set_option autoImplicit false
set_option relaxedAutoImplicit false

namespace MarketFeed.Simulation

/-- What surroundings do about a request: answer it, answer it and cancel the token of the one who
asked, let it wait until a point in time, or let the one who asked break down. -/
inductive Step (α : Type) where
  | answer (a : α)
  | cancelling (a : α)
  | wait (until_ : Instant)
  | breakDown

namespace Step

/-- Lets a span pass, unless the token is cancelled. -/
def pause (now : Instant) (cancelled : Bool) (d : Duration) : Step Signal :=
  if cancelled then .answer .cancelled
  else if d.isZero then .answer .elapsed
  else .wait (Instant.timer now d)

def ofAnswer? {α : Type} : Option α → Step α
  | some a => .answer a
  | none => .breakDown

def resumed (cancelled : Bool) : Step Signal := .answer (if cancelled then .cancelled else .elapsed)

end Step

/-- How requests are handled on a state, given the time and whether the token of the one who asks is
cancelled: when they are made, and when a wait for them has ended. -/
structure Handler (σ : Type) (S : Signature) where
  start : Instant → Bool → (op : S.Op) → σ → Step (S.Answer op) × σ
  resume : Instant → Bool → (op : S.Op) → σ → Step (S.Answer op) × σ

namespace Handler

variable {σ τ : Type} {S T : Signature}

def sum (h : Handler σ S) (k : Handler σ T) : Handler σ (S.sum T) where
  start now cancelled
    | .inl op, s => h.start now cancelled op s
    | .inr op, s => k.start now cancelled op s
  resume now cancelled
    | .inl op, s => h.resume now cancelled op s
    | .inr op, s => k.resume now cancelled op s

def onFirst (h : Handler σ S) : Handler (σ × τ) S where
  start now cancelled op s :=
    let r := h.start now cancelled op s.1
    (r.1, r.2, s.2)
  resume now cancelled op s :=
    let r := h.resume now cancelled op s.1
    (r.1, r.2, s.2)

def onSecond (h : Handler τ S) : Handler (σ × τ) S where
  start now cancelled op s :=
    let r := h.start now cancelled op s.2
    (r.1, s.1, r.2)
  resume now cancelled op s :=
    let r := h.resume now cancelled op s.2
    (r.1, s.1, r.2)

end Handler

/-- When a job goes on: at once, or at a point in time or when its token is cancelled. -/
inductive Wake where
  | ready
  | at_ (t : Instant)
  deriving DecidableEq, Repr

/-- A program that has been started, the token it heeds, and when it goes on. -/
structure Job (S : Signature) (α : Type) where
  number : Nat
  token : Nat
  program : Program S α
  wake : Wake

inductive Turn (S : Signature) (α : Type) where
  | ended (a : α)
  | broken
  | waiting (p : Program S α) (wake : Wake)

/-- An alarm that goes off again and again, and the token that turns it off. -/
structure Alarm where
  token : Nat
  next : Instant
  period : Duration
  deriving DecidableEq

/-- Surroundings with alarms: what handles requests, and which programs are started when an alarm
goes off. -/
structure Machine (σ : Type) (S : Signature) (α : Type) extends Handler σ S where
  ring : Instant → σ → List (Program S α) × σ

def Machine.ofHandler {σ α : Type} {S : Signature} (h : Handler σ S) : Machine σ S α where
  toHandler := h
  ring _ s := ([], s)

/-- One turn of a program. `resumed` tells that a wait for its first request has ended. The state and
whether the token is cancelled are passed on. -/
def turn {σ α : Type} {S : Signature} (h : Handler σ S) (now : Instant) :
    Program S α → Bool → Bool → σ → Turn S α × Bool × σ
  | .done a, _, cancelled, s => (.ended a, cancelled, s)
  | .ask op next, resumed, cancelled, s =>
    let r := if resumed then h.resume now cancelled op s else h.start now cancelled op s
    match r.1 with
    | .answer a => turn h now (next a) false cancelled r.2
    | .cancelling a => turn h now (next a) false true r.2
    | .wait t => (.waiting (.ask op next) (.at_ t), cancelled, r.2)
    | .breakDown => (.broken, cancelled, r.2)

/-- The clock, the state, the jobs, the results of those that have ended, the numbers of those that
broke down, the tokens (when each is cancelled, if ever), and the alarms. -/
structure Scheduler (σ : Type) (S : Signature) (α : Type) where
  now : Instant
  state : σ
  jobs : List (Job S α)
  results : List (Nat × α)
  broken : List Nat
  started : Nat
  tokens : List (Option Instant)
  alarms : List Alarm

namespace Scheduler

variable {σ α : Type} {S : Signature}

def ofState (s : σ) : Scheduler σ S α := ⟨0, s, [], [], [], 0, [], []⟩

/-- Whether a token is cancelled by now. -/
def isCancelled (w : Scheduler σ S α) (token : Nat) : Bool :=
  match w.tokens[token]? with
  | some (some t) => decide (t ≤ w.now)
  | _ => false

def newToken (w : Scheduler σ S α) (cancelAt : Option Instant) : Nat × Scheduler σ S α :=
  (w.tokens.length, { w with tokens := w.tokens ++ [cancelAt] })

def cancel (w : Scheduler σ S α) (token : Nat) : Scheduler σ S α :=
  if w.isCancelled token then w else { w with tokens := w.tokens.set token (some w.now) }

def start (w : Scheduler σ S α) (token : Nat) (p : Program S α) : Nat × Scheduler σ S α :=
  (w.started, { w with jobs := w.jobs ++ [⟨w.started, token, p, .ready⟩], started := w.started + 1 })

def setAlarm (w : Scheduler σ S α) (token : Nat) (period : Duration) : Scheduler σ S α :=
  { w with alarms := w.alarms ++ [⟨token, w.now, period⟩] }

def result? (w : Scheduler σ S α) (number : Nat) : Option α :=
  (w.results.find? fun r => r.1 == number).map Prod.snd

/-- Whether a job can go on now. -/
def canGoOn (w : Scheduler σ S α) (j : Job S α) : Bool :=
  match j.wake with
  | .ready => true
  | .at_ t => decide (t ≤ w.now) || w.isCancelled j.token

def runJob (m : Machine σ S α) (w : Scheduler σ S α) (j : Job S α) : Scheduler σ S α :=
  let cancelled := w.isCancelled j.token
  let r := turn m.toHandler w.now j.program (j.wake != .ready) cancelled w.state
  let w := { w with state := r.2.2 }
  let w := if r.2.1 then w.cancel j.token else w
  match r.1 with
  | .ended a => { w with results := w.results ++ [(j.number, a)] }
  | .broken => { w with broken := w.broken ++ [j.number] }
  | .waiting p wake => { w with jobs := w.jobs ++ [{ j with program := p, wake }] }

def round (m : Machine σ S α) (w : Scheduler σ S α) : Scheduler σ S α :=
  w.jobs.foldl
    (fun w j => if w.canGoOn j then w.runJob m j else { w with jobs := w.jobs ++ [j] })
    { w with jobs := [] }

def startAll (w : Scheduler σ S α) (token : Nat) (ps : List (Program S α)) : Scheduler σ S α :=
  ps.foldl (fun w p => (w.start token p).2) w

def runAlarm (m : Machine σ S α) (w : Scheduler σ S α) (a : Alarm) : Scheduler σ S α :=
  if w.now < a.next then { w with alarms := w.alarms ++ [a] }
  else if w.isCancelled a.token then w
  else
    let r := m.ring w.now w.state
    let w := { w with
      state := r.2
      alarms := w.alarms ++ [{ a with next := Instant.after a.next a.period }] }
    w.startAll a.token r.1

def runAlarms (m : Machine σ S α) (w : Scheduler σ S α) : Scheduler σ S α :=
  w.alarms.foldl (runAlarm m) { w with alarms := [] }

/-- Whether something can happen now. -/
def isBusy (w : Scheduler σ S α) : Bool :=
  w.jobs.any w.canGoOn || w.alarms.any fun a => decide (a.next ≤ w.now)

/-- Lets everything happen that can happen now, within an allowance of rounds. -/
def settleWithin (m : Machine σ S α) : Nat → Scheduler σ S α → Scheduler σ S α
  | 0, w => w
  | allowance + 1, w =>
    if w.isBusy then settleWithin m allowance ((w.runAlarms m).round m) else w

def earlier : Option Instant → Option Instant → Option Instant
  | some a, some b => some (min a b)
  | some a, none => some a
  | none, b => b

/-- The first point in time after now at which something happens. -/
def nextEvent (w : Scheduler σ S α) : Option Instant :=
  let wakes := w.jobs.filterMap fun j => match j.wake with
    | .at_ t => some t
    | .ready => none
  let cancels := w.jobs.filterMap fun j => (w.tokens[j.token]?).join
  let rings := w.alarms.map Alarm.next
  (wakes ++ cancels ++ rings).foldl
    (fun acc t => if w.now < t then earlier acc (some t) else acc) none

/-- More rounds than any finite run takes. -/
def allowance : Nat := Nat.pow 2 62

def settle (m : Machine σ S α) (w : Scheduler σ S α) : Scheduler σ S α := settleWithin m allowance w

def passWithin (m : Machine σ S α) (target : Instant) : Nat → Scheduler σ S α → Scheduler σ S α
  | 0, w => w
  | n + 1, w =>
    let w := w.settle m
    match w.nextEvent with
    | some t =>
      if t ≤ target then passWithin m target n { w with now := t }
      else settle m { w with now := max w.now target }
    | none => settle m { w with now := max w.now target }

def pass (m : Machine σ S α) (w : Scheduler σ S α) (d : Duration) : Scheduler σ S α :=
  passWithin m (Instant.timer w.now d) allowance w

/-- Whether all of some jobs have ended, or one of them broke down. -/
def isOver (w : Scheduler σ S α) (numbers : List Nat) : Bool :=
  (numbers.all fun k => (w.result? k).isSome) || numbers.any w.broken.contains

def awaitWithin (m : Machine σ S α) (numbers : List Nat) :
    Nat → Scheduler σ S α → Scheduler σ S α
  | 0, w => w
  | n + 1, w =>
    let w := w.settle m
    if w.isOver numbers then w
    else match w.nextEvent with
      | some t => awaitWithin m numbers n { w with now := t }
      | none => w

/-- Lets time pass until some jobs are over, or nothing can happen any more. -/
def await (m : Machine σ S α) (w : Scheduler σ S α) (numbers : List Nat) : Scheduler σ S α :=
  awaitWithin m numbers allowance w

/-- Starts a program under a token and lets time pass until it is over. -/
def complete (m : Machine σ S α) (w : Scheduler σ S α) (token : Nat) (p : Program S α) :
    Option α × Scheduler σ S α :=
  let r := w.start token p
  let w := r.2.await m [r.1]
  (w.result? r.1, { w with results := [] })

end Scheduler

end MarketFeed.Simulation
