import Mathlib.Tactic.Ring
import MarketFeed.Proofs.KeyRing.Tasks
/-!
Waiting for a token. A wait is rounded to whole nanoseconds and may end before a whole token is there, by
what flows in in half a nanosecond. It is never shorter than a millisecond, so a second wait makes up for
this, and as nobody else takes tokens of the kind, there is no third.
-/

set_option autoImplicit false
set_option relaxedAutoImplicit false

namespace MarketFeed

open Program Simulation

/-! ### Rounded spans -/

theorem roundDiv_ge (num : Nat) {den : Nat} (pos : 0 < den) :
    2 * num ≤ 2 * (den * roundDiv num den) + den := by
  have whole := Nat.div_add_mod num den
  have less := Nat.mod_lt num pos
  unfold roundDiv
  dsimp only
  split
  · rw [Nat.mul_succ]
    omega
  · rename_i down
    simp only [Bool.or_eq_true, decide_eq_true_eq, not_or, Nat.not_lt] at down
    omega

theorem roundDiv_le (num den : Nat) : roundDiv num den ≤ num / den + 1 := by
  unfold roundDiv
  dsimp only
  split
  · exact Nat.le_refl _
  · exact Nat.le_succ _

section Rounded

variable {q : Rat}

private theorem quotient_eq (nonneg : 0 ≤ q) : (q.num.toNat : Rat) / (q.den : Rat) = q := by
  rw [← Int.cast_natCast, Int.toNat_of_nonneg (Rat.num_nonneg.mpr nonneg)]
  exact q.num_div_den

private theorem den_pos_cast : (0 : Rat) < q.den := by exact_mod_cast q.den_pos

theorem le_rounded (nonneg : 0 ≤ q) : q ≤ roundDiv q.num.toNat q.den + 1 / 2 := by
  have near : (2 * q.num.toNat : Rat) ≤ 2 * (q.den * roundDiv q.num.toNat q.den) + q.den := by
    exact_mod_cast roundDiv_ge q.num.toNat q.den_pos
  calc q = q.num.toNat / q.den := (quotient_eq nonneg).symm
    _ ≤ roundDiv q.num.toNat q.den + 1 / 2 := by
      rw [div_le_iff₀ den_pos_cast]
      linarith

theorem rounded_le {n : Nat} (nonneg : 0 ≤ q) (most : q ≤ n) : roundDiv q.num.toNat q.den ≤ n + 1 := by
  refine Nat.le_trans (roundDiv_le _ _) (Nat.succ_le_succ (Nat.div_le_of_le_mul ?_))
  have whole := (div_le_iff₀ den_pos_cast).mp ((quotient_eq nonneg).trans_le most)
  rw [mul_comm] at whole
  exact_mod_cast whole

end Rounded

namespace Quantity

theorem nearestSpan_nanos {x : Rat} (nonneg : 0 ≤ x) (most : x ≤ 60) :
    x * (nanosPerSecond : Rat) ≤ (nearestSpan x).nanos + 1 / 2 ∧
      (nearestSpan x).nanos ≤ 60 * nanosPerSecond + 1 := by
  have scaled : 0 ≤ x * (nanosPerSecond : Rat) := mul_nonneg nonneg (Nat.cast_nonneg _)
  have within : x * (nanosPerSecond : Rat) ≤ (60 * nanosPerSecond : Nat) := by
    rw [Nat.cast_mul]
    gcongr
    exact most
  have bound := rounded_le scaled within
  have span : (nearestSpan x).nanos =
      roundDiv (x * (nanosPerSecond : Rat)).num.toNat (x * (nanosPerSecond : Rat)).den :=
    min_eq_left (bound.trans (by decide))
  rw [span]
  exact ⟨le_rounded scaled, bound⟩

end Quantity

theorem Duration.nanos_longer (d e : Duration) : (d.longer e).nanos = max d.nanos e.nanos := by
  unfold longer
  split
  · rename_i le
    exact (max_eq_right le).symm
  · rename_i lt
    exact (max_eq_left (Nat.le_of_not_le lt)).symm

theorem Instant.timer_passed {now later : Instant} {d : Duration}
    (timed : d.nanos ≤ Duration.longestTimer.nanos) (woken : Instant.timer now d ≤ later) :
    (d.nanos : Rat) / (nanosPerSecond : Rat) ≤ Instant.secondsTo now later := by
  have passed : now + d.nanos ≤ later := by
    refine Nat.le_trans ?_ woken
    rw [Instant.timer, min_eq_left timed]
    exact Instant.le_nextMilli _
  have nanos : d.nanos ≤ later - now := Nat.le_sub_of_add_le (Nat.add_comm .. ▸ passed)
  unfold secondsTo
  gcongr

namespace RateLimit

variable (limit : RateLimit) {level : Rat} {d : Duration}

/-- What flows in in half a nanosecond. -/
def slack : Rat := limit.perSecond / (2 * (nanosPerSecond : Rat))

theorem slack_nonneg : 0 ≤ limit.slack :=
  div_nonneg limit.perSecond_nonneg (mul_nonneg (by norm_num) (Nat.cast_nonneg _))

theorem pause?_eq_some (paused : limit.pause? level = some d) : level < 1 ∧
    d = (Quantity.nearestSpan ((1 - level) / limit.perSecond)).longer Limiter.shortestPause := by
  unfold pause? at paused
  split at paused
  · cases paused
  · rename_i short
    exact ⟨not_le.mp short, (Option.some.inj paused).symm⟩

theorem perSecond_pos : 0 < limit.perSecond := lt_of_lt_of_le (by norm_num) limit.perSecond_ge

/-- No pause is longer than a minute, for at least one token flows in in that time. -/
theorem missing_le (nonneg : 0 ≤ level) : (1 - level) / limit.perSecond ≤ 60 := by
  rw [div_le_iff₀ limit.perSecond_pos]
  have := limit.perSecond_ge
  linarith

theorem pause_span (nonneg : 0 ≤ level) (paused : limit.pause? level = some d) :
    1 ≤ level + d.nanos / nanosPerSecond * limit.perSecond + limit.slack ∧
      nanosPerMilli ≤ d.nanos ∧ d.nanos ≤ Duration.longestTimer.nanos := by
  obtain ⟨short, rfl⟩ := limit.pause?_eq_some paused
  have missing : 0 ≤ (1 - level) / limit.perSecond :=
    div_nonneg (by linarith) limit.perSecond_nonneg
  obtain ⟨near, bound⟩ := Quantity.nearestSpan_nanos missing (limit.missing_le nonneg)
  rw [Duration.nanos_longer]
  refine ⟨?_, le_max_right _ _, max_le (bound.trans (by decide)) (by decide)⟩
  obtain ⟨span, same⟩ : ∃ span, max (Quantity.nearestSpan ((1 - level) / limit.perSecond)).nanos
    Limiter.shortestPause.nanos = span := ⟨_, rfl⟩
  have covered : (1 - level) / limit.perSecond ≤ (span + 1 / 2) / nanosPerSecond := by
    have longer : ((Quantity.nearestSpan ((1 - level) / limit.perSecond)).nanos : Rat) ≤ span := by
      exact_mod_cast same ▸ le_max_left _ _
    rw [le_div_iff₀ (by norm_num [nanosPerSecond])]
    linarith
  rw [same]
  calc 1 = level + (1 - level) / limit.perSecond * limit.perSecond := by
        rw [div_mul_cancel₀ _ limit.perSecond_pos.ne']
        ring
    _ ≤ level + (span + 1 / 2) / nanosPerSecond * limit.perSecond := by
        have := limit.perSecond_nonneg
        gcongr
    _ = level + span / nanosPerSecond * limit.perSecond + limit.slack := by
        rw [slack]
        ring

theorem slack_le (d : Duration) (long : nanosPerMilli ≤ d.nanos) :
    limit.slack ≤ d.nanos / nanosPerSecond * limit.perSecond := by
  have : (1 : Rat) ≤ d.nanos := by exact_mod_cast Nat.le_trans (by decide) long
  have rate := limit.perSecond_nonneg
  calc limit.slack = 1 / 2 / nanosPerSecond * limit.perSecond := by
        rw [slack]
        ring
    _ ≤ d.nanos / nanosPerSecond * limit.perSecond := by
        gcongr
        linarith

end RateLimit

namespace Limiter

variable {limit : RateLimit} {kind : Credential.Kind} {now later : Instant} {l : Limiter Rat} {d : Duration}

private theorem Sound.level_woken (sound : l.Sound limit kind now)
    (paused : limit.pause? (l.level kind now) = some d) (woken : Instant.timer now d ≤ later) :
    min (l.level kind now + d.nanos / nanosPerSecond * limit.perSecond) 1 ≤ l.level kind later := by
  obtain ⟨-, long, timed⟩ := limit.pause_span sound.level_nonneg paused
  have passed := Instant.timer_passed timed woken
  have after : now ≤ later := by
    refine Nat.le_trans ?_ woken
    exact Nat.le_trans (Nat.le_add_right _ _) (Instant.le_nextMilli _)
  rw [sound.level_from after]
  refine min_le_min ?_ limit.one_le_atOnce
  have := limit.perSecond_nonneg
  gcongr

theorem Sound.nearly_whole (sound : l.Sound limit kind now)
    (paused : limit.pause? (l.level kind now) = some d) (woken : Instant.timer now d ≤ later) :
    1 ≤ l.level kind later + limit.slack := by
  obtain ⟨covered, -, -⟩ := limit.pause_span sound.level_nonneg paused
  have nonneg := limit.slack_nonneg
  rcases min_le_iff.mp (sound.level_woken paused woken) with partly | whole <;> linarith

/-- After a second pause there is a whole token. -/
theorem Sound.whole (sound : l.Sound limit kind now) (nearly : 1 ≤ l.level kind now + limit.slack)
    (paused : limit.pause? (l.level kind now) = some d) (woken : Instant.timer now d ≤ later) :
    1 ≤ l.level kind later := by
  -- how long the pause was meant to be does not matter here, only that it is no shorter than the shortest
  obtain ⟨-, long, -⟩ := limit.pause_span sound.level_nonneg paused
  have := limit.slack_le d long
  refine le_trans (le_min ?_ (le_refl 1)) (sound.level_woken paused woken)
  linarith

end Limiter

/-! ### Tasks that wait -/

namespace KeyRing

open Limiter

def kindOf? : controls.Op → Option Credential.Kind
  | .acquire kind | .tryAcquire kind => some kind
  | .isCancelled | .markFailed _ | .markSucceeded _ => none

section Waiting

variable {α : Type} {limit : RateLimit} {kind : Credential.Kind} {i : Nat}
  {w w' w'' : TaskSystem α}

/-- A task has come to ask for a token of a kind, and it was not cancelled. -/
def Asking (kind : Credential.Kind) (i : Nat) (w : TaskSystem α) : Prop :=
  ∃ t next, w.threads[i]? = some t ∧ t.rest = .ask (.acquire kind) next ∧ t.pose ≠ .gone ∧
    t.cancelled = false

/-- What may happen beside a task while it is the only user of a kind: everything but a move or a
cancellation of the task and a request for a token of this kind. -/
inductive Beside (kind : Credential.Kind) (i : Nat) :
    TaskSystem α → TaskSystem α → Prop where
  | pass {w : TaskSystem α} {now : Instant} (later : w.now ≤ now) :
      Beside kind i w { w with now }
  | start {w : TaskSystem α} (p : Program controls α) :
      Beside kind i w { w with threads := w.threads ++ [.ofProgram p w.now] }
  | cancel {w : TaskSystem α} {j : Nat} {t : Thread controls α} (other : j ≠ i)
      (found : w.threads[j]? = some t) :
      Beside kind i w { w with threads := w.threads.set j { t with cancelled := true } }
  | move {w : TaskSystem α} {j : Nat} (other : j ≠ i)
      (elsewhere : ∀ t op next, w.threads[j]? = some t → t.rest = .ask op next →
        kindOf? op ≠ some kind) :
      Beside kind i w ((tasks α).moveOf w j)
  | change {w : TaskSystem α} {k : KeyRing Rat} (same : k.limiter = w.state.limiter) :
      Beside kind i w { w with state := k }

/-- The task is told that it has the token that it asks for: a whole one was there, and it is used up. -/
structure Gets (kind : Credential.Kind) (i : Nat) (w : TaskSystem α) : Prop where
  whole : 1 ≤ w.state.limiter.level kind w.now
  told : ∃ t t', w.threads[i]? = some t ∧ ((tasks α).moveOf w i).threads[i]? = some t' ∧
    t'.log = t.log ++ [⟨w.now, ⟨.acquire kind, Signal.elapsed⟩⟩]
  spent : ((tasks α).moveOf w i).state.limiter.level kind w.now + 1 = w.state.limiter.level kind w.now

/-- The task goes to sleep until a time: less than a whole token was there, and it still is. -/
structure Sleeps (kind : Credential.Kind) (i : Nat) (until_ : Instant)
    (w : TaskSystem α) : Prop where
  short : w.state.limiter.level kind w.now < 1
  told : ∃ t, w.threads[i]? = some t ∧
    (t.handled Keys.controls w.now (.acquire kind) w.state).1 = .wait until_ ∧
    ((tasks α).moveOf w i).threads[i]? = some { t with pose := .waiting }
  left : ((tasks α).moveOf w i).state.limiter.level kind w.now = w.state.limiter.level kind w.now

/-- Whatever happens beside the task, it gets the token that it asks for after at most some number of
sleeps, each of which ends no earlier than its timer goes off. -/
def GetsWithin (kind : Credential.Kind) (i : Nat) : Nat → TaskSystem α → Prop
  | 0, w => Gets kind i w
  | n + 1, w => Gets kind i w ∨ ∃ until_, Sleeps kind i until_ w ∧
      ∀ w', Relation.ReflTransGen (Beside kind i) ((tasks α).moveOf w i) w' → until_ ≤ w'.now →
        GetsWithin kind i n w'

/-! ### What others do -/

def Spared (limit : RateLimit) (kind : Credential.Kind) (now : Instant) (k k' : KeyRing Rat) : Prop :=
  k'.limiter.Sound limit kind now ∧ k'.limiter.level kind now = k.limiter.level kind now

section Elsewhere

variable {now : Instant} {k : KeyRing Rat} {op : controls.Op}
  (sound : k.limiter.Sound limit kind now)

include sound

theorem spared_start (elsewhere : kindOf? op ≠ some kind) (cancelled : Bool) :
    Spared limit kind now k (Keys.start now cancelled op k).2 := by
  cases op with
  | isCancelled | markFailed secret | markSucceeded secret => exact ⟨sound, rfl⟩
  | acquire kind' =>
    obtain ⟨kept, spent⟩ := sound.attempt kind'
    rw [if_neg fun given => elsewhere (congrArg some given.1), add_zero] at spent
    have ring : (Keys.start now cancelled (.acquire kind') k).2 =
        { k with limiter := (k.limiter.attempt now kind').2 } := acquire_limiter ..
    rw [ring]
    exact ⟨kept, spent⟩
  | tryAcquire kind' =>
    obtain ⟨kept, spent⟩ := sound.take kind'
    rw [if_neg fun given => elsewhere (congrArg some given.1), add_zero] at spent
    exact ⟨kept, spent⟩

theorem spared_resume (elsewhere : kindOf? op ≠ some kind) (cancelled : Bool) :
    Spared limit kind now k (Keys.resume now cancelled op k).2 := by
  cases op with
  | acquire kind' =>
    cases cancelled with
    | true => exact ⟨sound, rfl⟩
    | false => exact spared_start sound elsewhere false
  | isCancelled | markFailed secret | markSucceeded secret | tryAcquire kind' =>
    exact spared_start sound elsewhere cancelled

theorem spared_move {t : Thread controls α}
    (elsewhere : ∀ op next, t.rest = .ask op next → kindOf? op ≠ some kind) :
    Spared limit kind now k (t.move Keys.controls now k).2 := by
  rcases t.move_cases Keys.controls now k with still | ⟨op, next, asks, -, moved⟩
  · rw [still]
    exact ⟨sound, rfl⟩
  · rw [moved]
    exact t.handled_of Keys.controls now op k (fun r => Spared limit kind now k r.2)
      (spared_resume sound (elsewhere op next asks) _) (spared_start sound (elsewhere op next asks) _)

end Elsewhere

/-- As far as a kind is concerned, a limiter is as it would be had nobody called it, and a task is as it
was. -/
structure Kept (limit : RateLimit) (kind : Credential.Kind) (i : Nat)
    (w w' : TaskSystem α) : Prop where
  after : w.now ≤ w'.now
  sound : w'.state.limiter.Sound limit kind w'.now
  level : w'.state.limiter.level kind w'.now = w.state.limiter.level kind w'.now
  same : ∀ t, w.threads[i]? = some t → w'.threads[i]? = some t

theorem Kept.trans (sound : w.state.limiter.Sound limit kind w.now) (first : Kept limit kind i w w')
    (second : Kept limit kind i w' w'') : Kept limit kind i w w'' where
  after := Nat.le_trans first.after second.after
  sound := second.sound
  level := by
    rw [second.level, first.sound.level_from second.after, first.level,
      (sound.wait first.after).level_from second.after]
  same t found := second.same t (first.same t found)

theorem Beside.kept (beside : Beside kind i w w') (sound : w.state.limiter.Sound limit kind w.now) :
    Kept limit kind i w w' := by
  cases beside with
  | pass later => exact ⟨later, sound.wait later, rfl, fun t found => found⟩
  | start p =>
    refine ⟨Nat.le_refl _, sound, rfl, fun t found => ?_⟩
    exact (List.getElem?_append_left (List.getElem?_eq_some_iff.mp found).1).trans found
  | cancel other _ =>
    exact ⟨Nat.le_refl _, sound, rfl, fun t found => (List.getElem?_set_ne other).trans found⟩
  | @move j other elsewhere =>
    unfold Setting.moveOf
    split
    · rename_i u there
      obtain ⟨kept, level⟩ := spared_move sound fun op next => elsewhere u op next there
      exact ⟨Nat.le_refl _, kept, level, fun t found => (List.getElem?_set_ne other).trans found⟩
    · exact ⟨Nat.le_refl _, sound, rfl, fun t found => found⟩
  | @change k same =>
    have level := congrArg (Limiter.level · kind w.now) same
    exact ⟨Nat.le_refl _, same.symm ▸ sound, level, fun t found => found⟩

theorem kept_of_beside (sound : w.state.limiter.Sound limit kind w.now)
    (beside : Relation.ReflTransGen (Beside kind i) w w') : Kept limit kind i w w' := by
  induction beside with
  | refl => exact ⟨Nat.le_refl _, sound, rfl, fun t found => found⟩
  | tail _ next ih => exact ih.trans sound (next.kept ih.sound)

/-! ### What the task does -/

section Acquire

variable {now : Instant} {k : KeyRing Rat}

theorem acquire_of_none (told : (k.limiter.attempt now kind).1 = none) :
    Keys.acquire now false kind k =
      (.answer .elapsed, { k with limiter := (k.limiter.attempt now kind).2 }) := by
  rw [Keys.acquire, told]

theorem acquire_of_some {d : Duration} (told : (k.limiter.attempt now kind).1 = some d) :
    Keys.acquire now false kind k =
      (.wait (Instant.timer now d), { k with limiter := (k.limiter.attempt now kind).2 }) := by
  rw [Keys.acquire, told]
  rfl

end Acquire

theorem handled_acquire {t : Thread controls α} (uncancelled : t.cancelled = false) (now : Instant)
    (k : KeyRing Rat) :
    t.handled Keys.controls now (.acquire kind) k = Keys.acquire now false kind k := by
  refine t.handled_of Keys.controls now (.acquire kind) k
    (fun r => r = Keys.acquire now false kind k) ?_ ?_
  · rw [uncancelled]
    rfl
  · rw [uncancelled]
    rfl

theorem moveOf_asking {t : Thread controls α}
    {next : controls.Answer (.acquire kind) → Program controls α} (found : w.threads[i]? = some t)
    (asks : t.rest = .ask (.acquire kind) next) (present : t.pose ≠ .gone)
    (uncancelled : t.cancelled = false) :
    ((tasks α).moveOf w i).state = (Keys.acquire w.now false kind w.state).2 ∧
      ((tasks α).moveOf w i).threads[i]? =
        some (t.settled w.now (.acquire kind) next (Keys.acquire w.now false kind w.state).1) := by
  have inside : i < w.threads.length := (List.getElem?_eq_some_iff.mp found).1
  have move := t.move_ask Keys.controls w.now w.state asks present
  rw [handled_acquire uncancelled] at move
  rw [Setting.moveOf, found]
  exact ⟨congrArg Prod.snd move,
    (List.getElem?_set_self inside).trans (congrArg (fun m => some m.1) move)⟩

theorem pass_cases (sound : w.state.limiter.Sound limit kind w.now) (asking : Asking kind i w) :
    Gets kind i w ∨ ∃ d, limit.pause? (w.state.limiter.level kind w.now) = some d ∧
      Sleeps kind i (Instant.timer w.now d) w ∧ Asking kind i ((tasks α).moveOf w i) ∧
      Spared limit kind w.now w.state ((tasks α).moveOf w i).state := by
  obtain ⟨t, next, found, asks, present, uncancelled⟩ := asking
  obtain ⟨state, thread⟩ := moveOf_asking found asks present uncancelled
  obtain ⟨kept, spent⟩ := sound.attempt kind
  cases told : (w.state.limiter.attempt w.now kind).1 with
  | none =>
    rw [acquire_of_none told] at state thread
    rw [if_pos ⟨rfl, told⟩] at spent
    have whole : 1 ≤ w.state.limiter.level kind w.now := by
      have := kept.level_nonneg
      linarith
    refine .inl ⟨whole, ⟨t, _, found, thread, rfl⟩, ?_⟩
    rw [state]
    exact spent
  | some d =>
    have paused := sound.attempt_eq.symm.trans told
    have handled : t.handled Keys.controls w.now (.acquire kind) w.state =
        Keys.acquire w.now false kind w.state := handled_acquire uncancelled w.now w.state
    rw [acquire_of_some told] at state thread handled
    rw [if_neg (by simp [told]), add_zero] at spent
    have spared : Spared limit kind w.now w.state ((tasks α).moveOf w i).state := by
      rw [state]
      exact ⟨kept, spent⟩
    exact .inr ⟨d, paused, ⟨(limit.pause?_eq_some paused).1,
      ⟨t, found, congrArg Prod.fst handled, thread⟩, spared.2⟩,
      ⟨_, next, thread, asks, nofun, uncancelled⟩, spared⟩

theorem gets_of_whole (sound : w.state.limiter.Sound limit kind w.now) (asking : Asking kind i w)
    (whole : 1 ≤ w.state.limiter.level kind w.now) : Gets kind i w := by
  rcases pass_cases sound asking with gets | ⟨d, -, sleeps, -⟩
  · exact gets
  · exact absurd whole (not_le.mpr sleeps.short)

theorem after_sleep (sound : w.state.limiter.Sound limit kind w.now)
    (asking : Asking kind i ((tasks α).moveOf w i))
    (spared : Spared limit kind w.now w.state ((tasks α).moveOf w i).state)
    (beside : Relation.ReflTransGen (Beside kind i) ((tasks α).moveOf w i) w') :
    w'.state.limiter.Sound limit kind w'.now ∧ Asking kind i w' ∧
      w'.state.limiter.level kind w'.now = w.state.limiter.level kind w'.now := by
  obtain ⟨sound', level⟩ := spared
  have still : ((tasks α).moveOf w i).now = w.now := by
    unfold Setting.moveOf
    split <;> rfl
  have kept := kept_of_beside (still.symm ▸ sound') beside
  obtain ⟨t, next, found, asks⟩ := asking
  have after : w.now ≤ w'.now := still ▸ kept.after
  refine ⟨kept.sound, ⟨t, next, kept.same t found, asks⟩, ?_⟩
  rw [kept.level, sound'.level_from after, level, sound.level_from after]

theorem getsWithin_one (sound : w.state.limiter.Sound limit kind w.now) (asking : Asking kind i w)
    (nearly : 1 ≤ w.state.limiter.level kind w.now + limit.slack) : GetsWithin kind i 1 w := by
  rcases pass_cases sound asking with gets | ⟨d, paused, sleeps, asking, spared⟩
  · exact .inl gets
  · refine .inr ⟨_, sleeps, fun w' beside woken => ?_⟩
    obtain ⟨sound', asking', level⟩ := after_sleep sound asking spared beside
    exact gets_of_whole sound' asking' (level ▸ sound.whole nearly paused woken)

theorem getsWithin_two (sound : w.state.limiter.Sound limit kind w.now) (asking : Asking kind i w) :
    GetsWithin kind i 2 w := by
  rcases pass_cases sound asking with gets | ⟨d, paused, sleeps, asking, spared⟩
  · exact .inl gets
  · refine .inr ⟨_, sleeps, fun w' beside woken => ?_⟩
    obtain ⟨sound', asking', level⟩ := after_sleep sound asking spared beside
    exact getsWithin_one sound' asking' (level ▸ sound.nearly_whole paused woken)

end Waiting

/-- However tasks have used a key ring, one of them that asks for a token and is not cancelled gets it
after two sleeps at most, if nobody else uses the kind meanwhile. It gets it when there is a whole one and
not before, and this one is all that it uses up. -/
theorem acquires_within_two_sleeps {α : Type} (credentials : List Credential) (config : Config)
    {w : TaskSystem α}
    (reached : (tasks α).Reaches (ofCredentials credentials config) w) {kind : Credential.Kind} {i : Nat}
    (asking : Asking kind i w) : GetsWithin kind i 2 w :=
  getsWithin_two (sound_reached reached kind) asking

def sevenAMinute : Config where
  rateLimits := (Credential.PerKind.const none).set .anonymous (some ⟨7, 1⟩)

def emptied : TaskSystem Unit :=
  (tasks Unit).moveOf ⟨571429, ofCredentials [] sevenAMinute,
    [.ofProgram (.ask (.tryAcquire .anonymous) fun _ => .done ()) 571429,
      .ofProgram (.ask (.acquire .anonymous) fun _ => .done ()) 571429]⟩ 0

private theorem reached_emptied : (tasks Unit).Reaches (ofCredentials [] sevenAMinute) emptied := by
  have first := Setting.Next.start (A := tasks Unit)
    (p := .ask (.tryAcquire .anonymous) fun _ => .done ())
    (w := ⟨571429, ofCredentials [] sevenAMinute, []⟩) trivial
  have second := Setting.Next.start (A := tasks Unit)
    (p := .ask (.acquire .anonymous) fun _ => .done ()) (w := ⟨571429, ofCredentials [] sevenAMinute,
      [.ofProgram (.ask (.tryAcquire .anonymous) fun _ => .done ()) 571429]⟩) trivial
  exact ⟨571429, .head first (.head second (Setting.leads_moveOf _ 0))⟩

private theorem asking_emptied : Asking .anonymous 1 emptied :=
  ⟨_, _, rfl, rfl, nofun, rfl⟩

theorem acquires_within_two_sleeps_emptied :
    (tasks Unit).Reaches (ofCredentials [] sevenAMinute) emptied ∧ Asking .anonymous 1 emptied ∧
      GetsWithin .anonymous 1 2 emptied ∧ ¬ GetsWithin .anonymous 1 1 emptied := by
  refine ⟨reached_emptied, asking_emptied,
    acquires_within_two_sleeps [] sevenAMinute reached_emptied asking_emptied, fun within => ?_⟩
  rcases within with gets | ⟨until_, sleeps, within⟩
  · exact absurd gets.whole (by decide +kernel)
  · obtain ⟨t, found, waits, -⟩ := sleeps.told
    cases found
    have told : (emptied.state.limiter.attempt emptied.now .anonymous).1 =
        some ⟨8571428571, by decide⟩ := by decide +kernel
    rw [handled_acquire rfl, acquire_of_some told] at waits
    cases waits
    have later : ((tasks Unit).moveOf emptied 1).now ≤ 8572000000 := by decide
    have gets := within _ (.single (.pass later)) (by decide)
    exact absurd gets.whole (by decide +kernel)

end KeyRing

end MarketFeed
