import BromiumCoreUtils.Lib.Bag
import BromiumCoreUtils.Timer.Basic

/-!
# The intervals of a timer

A repeating timer writes its current interval on `syncQ` and reads it off that queue, when
`setupTimer` calls `dispatch_after`.  Between the two lie a block on the global queue and, by
the mode, the block of the client.

`IntervalReference` is what the intervals should be: one value, and no queue.  A timer whose
control calls come while no chain is alive follows it, which is `followsReference_run`; as the
reference knows no mode, the two modes arm the same intervals.
-/

namespace BromiumCoreUtils

open Machine

/-! ## The reference -/

/-- What a timer is told, and what becomes of its expiries. -/
inductive TimerInput (D : Type) where
  /-- `start` ends with a `restart`. -/
  | restart
  | restartWithInterval (interval : D)
  | resume
  | suspend
  | fire
  /-- An expiry passes the guard. -/
  | automaticFire
  /-- An expiry is ignored. -/
  | dropped
deriving DecidableEq, Repr

/-- The input makes the timer arm an interval. -/
def TimerInput.arms {D : Type} : TimerInput D → Bool
  | .restart | .restartWithInterval _ | .resume | .automaticFire => true
  | .suspend | .fire | .dropped => false

/-- The sequential timer: the value that it keeps, and the intervals it has armed. -/
structure IntervalReference (D : Type) where
  cur : D
  armed : List D
deriving DecidableEq, Repr

namespace IntervalReference

variable {D : Type}

/-- Set the value and arm with it. -/
def arm (s : IntervalReference D) (interval : D) : IntervalReference D where
  cur := interval
  armed := s.armed ++ [interval]

def next (v0 : D) (f : D → D) (s : IntervalReference D) : TimerInput D → IntervalReference D
  | .restart => s.arm v0
  | .restartWithInterval v => s.arm v
  | .resume => s.arm s.cur
  | .automaticFire => s.arm (f s.cur)
  | .suspend => s
  | .fire => s
  | .dropped => s

def run (v0 : D) (f : D → D) (inputs : List (TimerInput D)) : IntervalReference D :=
  inputs.foldl (next v0 f) ⟨v0, []⟩

/-- The other inputs leave everything as it is. -/
theorem run_filter_arms (v0 : D) (f : D → D) (inputs : List (TimerInput D)) :
    run v0 f (inputs.filter TimerInput.arms) = run v0 f inputs := by
  unfold run
  generalize (⟨v0, []⟩ : IntervalReference D) = s
  induction inputs generalizing s with
  | nil => rfl
  | cons input inputs ih =>
    cases input with
    | restart | restartWithInterval | resume | automaticFire => exact ih _
    | suspend | fire | dropped => exact ih s

end IntervalReference

namespace BRUTimer

variable {D : Type}

/-! ## The timer -/

/-- The intervals that `dispatch_after` was called with. -/
def armedIntervals (log : List (TimerObservation D)) : List D :=
  log.filterMap fun
    | .armed _ interval => some interval
    | _ => none

/-- What a step is to the reference. -/
def input (t : BRUTimer D) : Event D → List (TimerInput D)
  | .restart => [.restart]
  | .restartWithInterval interval => [.restartWithInterval interval]
  | .resume => [.resume]
  | .suspend => [.suspend]
  | .fire => [.fire]
  | .expiryBlock expiry =>
    if expiry.generation ≠ t.generation ∨ t.running = false then [.dropped] else [.automaticFire]
  | .start | .readGeneration _ | .registerExpiry _ | .hopBlock | .beginFire _ | .endFire _
  | .runSuspend => []

/-- The calls of `setupTimer` and the fires that lead to one: each will arm an interval. -/
def owing (t : BRUTimer D) : Nat :=
  t.due.length + t.reads.length + t.hops + t.fires.count .setupTimerBlock +
    t.executing.count .setupTimerBlock

/-- No expiry is pending, and nothing is on its way that registers one. -/
def NoChain (t : BRUTimer D) : Prop :=
  t.pending = [] ∧ t.owing = 0

/-- A control call comes while no chain is alive. -/
def ControlledAlone (t : BRUTimer D) : Event D → Prop
  | .restart | .restartWithInterval _ | .resume => t.NoChain
  | _ => True

/-- The timer keeps the value of the reference, and has armed what the reference has, up to
one interval that it is about to arm. -/
structure FollowsReference (t : BRUTimer D) (s : IntervalReference D) : Prop where
  repeats : t.repeats = true
  single : t.pending.length + t.owing ≤ 1
  cur : t.currentInterval = s.cur
  armed : armedIntervals t.log ++ List.replicate t.owing t.currentInterval = s.armed

variable {t t' : BRUTimer D} {e : Event D} {s : IntervalReference D}

instance : Decidable (NoChain t) :=
  inferInstanceAs (Decidable (t.pending = [] ∧ t.owing = 0))

instance : Decidable (ControlledAlone t e) :=
  match e with
  | .restart | .restartWithInterval _ | .resume => inferInstanceAs (Decidable (NoChain t))
  | .start | .suspend | .fire | .readGeneration _ | .registerExpiry _ | .expiryBlock _
  | .hopBlock | .beginFire _ | .endFire _ | .runSuspend => .isTrue trivial

theorem armedIntervals_concat (log : List (TimerObservation D)) (o : TimerObservation D) :
    armedIntervals (log ++ [o]) = armedIntervals log ++ armedIntervals [o] := by
  simp [armedIntervals]

/-- Steps that hand the chain on arm nothing and owe the same. -/
theorem FollowsReference.congr (h : FollowsReference t s) (hrep : t'.repeats = t.repeats)
    (hcur : t'.currentInterval = t.currentInterval)
    (hpending : t'.pending.length = t.pending.length) (howing : t'.owing = t.owing)
    (hlog : armedIntervals t'.log = armedIntervals t.log) : FollowsReference t' s where
  repeats := by rw [hrep, h.repeats]
  single := by rw [hpending, howing]; exact h.single
  cur := by rw [hcur, h.cur]
  armed := by rw [hcur, howing, hlog]; exact h.armed

/-- A control call owes one interval, the one that it leaves behind. -/
theorem FollowsReference.resume (h : FollowsReference t s) (hnone : t.NoChain)
    (interval : Option D) :
    FollowsReference (t.resumeWithUpdateInterval interval) (s.arm (interval.getD s.cur)) := by
  obtain ⟨hpending, howing⟩ := hnone
  have harmed := h.armed
  rw [howing] at harmed
  have howing' : (t.resumeWithUpdateInterval interval).owing = 1 := by
    unfold owing at howing
    simp only [owing, resumeWithUpdateInterval, setupTimer, List.length_append,
      List.length_singleton]
    omega
  refine { repeats := h.repeats, single := ?_, cur := ?_, armed := ?_ }
  · rw [howing']
    show t.pending.length + 1 ≤ 1
    simp [hpending]
  · show interval.getD t.currentInterval = interval.getD s.cur
    rw [h.cur]
  · rw [howing']
    show armedIntervals (t.log ++ [.resumed]) ++ [interval.getD t.currentInterval] =
      s.armed ++ [interval.getD s.cur]
    rw [armedIntervals_concat, ← harmed, h.cur]
    simp [armedIntervals]

/-- The expiry of the chain becomes a fire, which owes the adjusted interval. -/
theorem FollowsReference.fired (h : FollowsReference t s) {expiry : Expiry}
    (hmem : expiry ∈ t.pending) :
    FollowsReference
      { t with
        pending := t.pending.erase expiry
        currentInterval := t.adjustFun t.currentInterval
        running := if t.repeats then t.running else false
        hops := t.hops + 1
        log := t.log ++ [.fired expiry.call] } (s.arm (t.adjustFun s.cur)) := by
  have hlen := Bag.length_erase_add hmem
  have hsingle := h.single
  have howing : t.owing = 0 := by omega
  have harmed := h.armed
  rw [howing] at harmed
  have howing' : owing
      { t with
        pending := t.pending.erase expiry
        currentInterval := t.adjustFun t.currentInterval
        running := if t.repeats then t.running else false
        hops := t.hops + 1
        log := t.log ++ [.fired expiry.call] } = 1 := by
    unfold owing at howing
    simp only [owing]
    omega
  refine { repeats := h.repeats, single := ?_, cur := ?_, armed := ?_ }
  · rw [howing']
    show (t.pending.erase expiry).length + 1 ≤ 1
    omega
  · show t.adjustFun t.currentInterval = t.adjustFun s.cur
    rw [h.cur]
  · rw [howing']
    show armedIntervals (t.log ++ [.fired expiry.call]) ++ [t.adjustFun t.currentInterval] =
      s.armed ++ [t.adjustFun s.cur]
    rw [armedIntervals_concat, ← harmed, h.cur]
    simp [armedIntervals]

/-- The interval that was owed is armed. -/
theorem FollowsReference.registerExpiry (h : FollowsReference t s) {read : GenerationRead}
    (hmem : read ∈ t.reads) : FollowsReference (t.registerExpiry read) s := by
  have hlen := Bag.length_erase_add hmem
  have hsingle := h.single
  have howing : t.owing = 1 := by
    unfold owing at hsingle ⊢
    omega
  have harmed := h.armed
  rw [howing] at harmed
  have hregistered : FollowsReference
      { t with
        reads := t.reads.erase read
        pending := t.pending ++ [⟨read.setup.call, read.generation⟩]
        log := t.log ++ [.armed read.setup.call t.currentInterval] } s := by
    have howing' : owing
        { t with
          reads := t.reads.erase read
          pending := t.pending ++ [⟨read.setup.call, read.generation⟩]
          log := t.log ++ [.armed read.setup.call t.currentInterval] } = 0 := by
      unfold owing at howing
      simp only [owing]
      omega
    refine { repeats := h.repeats, single := ?_, cur := h.cur, armed := ?_ }
    · rw [howing']
      simp only [List.length_append, List.length_singleton]
      omega
    · rw [howing', armedIntervals_concat, ← harmed]
      simp [armedIntervals]
  unfold BRUTimer.registerExpiry
  split
  · exact hregistered.congr rfl rfl rfl (by simp [owing, fireWithDate]) rfl
  · exact hregistered

/-- The block on the global queue hands the chain on, in either mode. -/
theorem FollowsReference.hopBlock (h : FollowsReference t s) (hpos : 0 < t.hops) :
    FollowsReference (hopBlock { t with hops := t.hops - 1 }) s := by
  have hmode : t.mode = .intervalBetweenBlockExecutions ∨
      t.mode = .intervalClockedOnWallClockTime := by
    cases t.mode <;> simp
  rcases hmode with hmode | hmode
  · rw [hopBlock_between (t := { t with hops := t.hops - 1 }) hmode]
    refine h.congr rfl rfl rfl ?_ rfl
    simp only [owing, fireWithDate, List.count_append, List.count_singleton_self]
    omega
  · rw [hopBlock_wallClock (t := { t with hops := t.hops - 1 }) hmode h.repeats]
    refine h.congr rfl rfl rfl ?_ rfl
    simp only [owing, setupTimer, List.length_append, List.length_singleton]
    omega

/-- The client's block returns, and a `setupTimerBlock` hands its chain on. -/
theorem FollowsReference.endFire (h : FollowsReference t s) {post : PostFireBlock}
    (hmem : post ∈ t.executing) :
    FollowsReference (runPostFireBlock post { t with executing := t.executing.erase post })
      s := by
  have hexec := Bag.count_erase_add hmem .setupTimerBlock
  cases post with
  | empty =>
    refine h.congr rfl rfl rfl ?_ rfl
    simp only [owing, runPostFireBlock]
    simp only [reduceCtorEq, if_false] at hexec
    omega
  | setupTimerBlock =>
    simp only [runPostFireBlock, setupTimerBlock, if_pos h.repeats]
    refine h.congr rfl rfl rfl ?_ rfl
    simp only [if_true] at hexec
    simp only [owing, setupTimer, List.length_append, List.length_singleton]
    omega

/-- The step lemma. -/
theorem step_followsReference (halone : ControlledAlone t e) (h : FollowsReference t s)
    (hstep : step t e = .ok t') :
    FollowsReference t'
      ((input t e).foldl (IntervalReference.next t.initialInterval t.adjustFun) s) := by
  cases step_transition hstep with
  | start _ => exact h
  | resume interval he =>
    rcases he with ⟨rfl, rfl⟩ | ⟨rfl, rfl⟩ | ⟨v, rfl, rfl⟩
    · exact h.resume halone none
    · exact h.resume halone (some t.initialInterval)
    · exact h.resume halone (some v)
  | suspend => exact h.congr rfl rfl rfl rfl rfl
  | fire => exact h.congr rfl rfl rfl (by simp [owing, fire, fireWithDate]) rfl
  | @readGeneration setup hmem =>
    have hdue := Bag.length_erase_add hmem
    refine h.congr rfl rfl rfl ?_ ?_
    · simp only [owing, BRUTimer.readGeneration, List.length_append, List.length_singleton]
      omega
    · show armedIntervals (t.log ++ [.generationRead setup.call]) = armedIntervals t.log
      simp [armedIntervals]
  | registerExpiry hmem => exact h.registerExpiry hmem
  | @dropped expiry hmem _ _ hguard =>
    -- the chain ends here, and `currentInterval` stays
    have hlen := Bag.length_erase_add hmem
    have hsingle := h.single
    simp only [input, if_pos hguard]
    refine { repeats := h.repeats, single := ?_, cur := h.cur, armed := h.armed }
    show (t.pending.erase expiry).length + t.owing ≤ 1
    omega
  | @fired expiry hmem _ hgen hrunning =>
    have hguard : ¬ (expiry.generation ≠ t.generation ∨ t.running = false) := by
      simp [hgen, hrunning]
    simp only [input, if_neg hguard]
    exact h.fired hmem
  | hopBlock hpos => exact h.hopBlock hpos
  | @beginFire post hmem =>
    have hfires := Bag.count_erase_add hmem .setupTimerBlock
    refine h.congr rfl rfl rfl ?_ rfl
    simp only [owing, List.count_append, List.count_singleton, beq_iff_eq]
    omega
  | endFire hmem => exact h.endFire hmem
  | @runSuspend _ =>
    refine h.congr rfl rfl rfl rfl ?_
    show armedIntervals (t.log ++ [.suspended]) = armedIntervals t.log
    simp [armedIntervals]

/-- No step changes what the timer was initialised with. -/
theorem step_config (hstep : step t e = .ok t') :
    t'.initialInterval = t.initialInterval ∧ t'.adjustFun = t.adjustFun := by
  cases step_transition hstep with
  | registerExpiry _ =>
    unfold BRUTimer.registerExpiry
    split
    · exact ⟨rfl, rfl⟩
    · exact ⟨rfl, rfl⟩
  | hopBlock _ =>
    unfold BRUTimer.hopBlock
    split
    · exact ⟨rfl, rfl⟩
    · split
      · exact ⟨rfl, rfl⟩
      · exact ⟨rfl, rfl⟩
  | endFire _ =>
    unfold runPostFireBlock setupTimerBlock
    split
    · exact ⟨rfl, rfl⟩
    · split
      · exact ⟨rfl, rfl⟩
      · exact ⟨rfl, rfl⟩
  | _ => exact ⟨rfl, rfl⟩

/-- The run lemma. -/
theorem followsReference_run {v0 : D} {mode : BRUTimerMode} {adjustInterval : Option (D → D)}
    {events : List (Event D)}
    (halone : AllSteps step ControlledAlone (initWithInterval v0 true mode adjustInterval) events)
    (hrun : run step (initWithInterval v0 true mode adjustInterval) events = .ok t) :
    FollowsReference t (.run v0 (adjustInterval.getD id)
      (emitted step input (initWithInterval v0 true mode adjustInterval) events)) := by
  have hfollows : (t.initialInterval = v0 ∧ t.adjustFun = adjustInterval.getD id) ∧
      FollowsReference t (.run v0 (adjustInterval.getD id)
        (emitted step input (initWithInterval v0 true mode adjustInterval) events)) := by
    refine run_follows (R := fun t s =>
      (t.initialInterval = v0 ∧ t.adjustFun = adjustInterval.getD id) ∧ FollowsReference t s)
      ?_ ?_ halone hrun
    · intro t s e t' halone h hstep
      obtain ⟨⟨hinitial, hadjust⟩, h⟩ := h
      obtain ⟨hinitial', hadjust'⟩ := step_config hstep
      have hstep' := step_followsReference halone h hstep
      rw [hinitial, hadjust] at hstep'
      exact ⟨⟨hinitial'.trans hinitial, hadjust'.trans hadjust⟩, hstep'⟩
    · exact ⟨⟨rfl, rfl⟩,
        { repeats := rfl, single := Nat.zero_le 1, cur := rfl, armed := rfl }⟩
  exact hfollows.2

/-- In either mode the timer arms what the reference arms, the last of it perhaps still owed.
Two timers that are told the same, each in its mode, arm the same. -/
theorem armed_eq_reference {v0 : D} {mode mode' : BRUTimerMode}
    {adjustInterval : Option (D → D)} {events events' : List (Event D)}
    (halone : AllSteps step ControlledAlone (initWithInterval v0 true mode adjustInterval) events)
    (halone' : AllSteps step ControlledAlone (initWithInterval v0 true mode' adjustInterval)
      events')
    (hrun : run step (initWithInterval v0 true mode adjustInterval) events = .ok t)
    (hrun' : run step (initWithInterval v0 true mode' adjustInterval) events' = .ok t') :
    (t.owing ≤ 1 ∧
      armedIntervals t.log ++ List.replicate t.owing t.currentInterval =
        (IntervalReference.run v0 (adjustInterval.getD id)
          (emitted step input (initWithInterval v0 true mode adjustInterval) events)).armed) ∧
    ((emitted step input (initWithInterval v0 true mode adjustInterval) events).filter
        TimerInput.arms =
      (emitted step input (initWithInterval v0 true mode' adjustInterval) events').filter
        TimerInput.arms →
      armedIntervals t.log ++ List.replicate t.owing t.currentInterval =
        armedIntervals t'.log ++ List.replicate t'.owing t'.currentInterval) := by
  have hfollows := followsReference_run halone hrun
  have hfollows' := followsReference_run halone' hrun'
  have hsingle := hfollows.single
  refine ⟨⟨by omega, hfollows.armed⟩, ?_⟩
  intro hinputs
  rw [hfollows.armed, hfollows'.armed, ← IntervalReference.run_filter_arms, hinputs,
    IntervalReference.run_filter_arms]

/-- A timer that doubles its interval fires once.  It is suspended, its next expiry is dropped,
and it is resumed. -/
def doubling (mode : BRUTimerMode) : List (Event Nat) :=
  [.start, .restart, .readGeneration ⟨0, .resume⟩, .registerExpiry ⟨⟨0, .resume⟩, 1⟩, .fire,
    .expiryBlock ⟨0, 1⟩, .hopBlock] ++
  (match mode with
    | .intervalBetweenBlockExecutions =>
      [.beginFire .setupTimerBlock, .endFire .setupTimerBlock,
        .readGeneration ⟨1, .postFireBlock⟩, .registerExpiry ⟨⟨1, .postFireBlock⟩, 1⟩]
    | .intervalClockedOnWallClockTime =>
      [.readGeneration ⟨1, .preFireBlock⟩, .registerExpiry ⟨⟨1, .preFireBlock⟩, 1⟩]) ++
  [.suspend, .runSuspend, .expiryBlock ⟨1, 1⟩, .resume, .readGeneration ⟨2, .resume⟩,
    .registerExpiry ⟨⟨2, .resume⟩, 2⟩]

theorem armed_eq_reference_doubling : ∃ t t' : BRUTimer Nat,
    run step (initWithInterval 5 true .intervalBetweenBlockExecutions (some (2 * ·)))
        (doubling .intervalBetweenBlockExecutions) = .ok t ∧
      run step (initWithInterval 5 true .intervalClockedOnWallClockTime (some (2 * ·)))
        (doubling .intervalClockedOnWallClockTime) = .ok t' ∧
      armedIntervals t.log = [5, 10, 10] ∧
      armedIntervals t.log ++ List.replicate t.owing t.currentInterval =
        armedIntervals t'.log ++ List.replicate t'.owing t'.currentInterval := by
  obtain ⟨t, hrun, harmed⟩ : ∃ t : BRUTimer Nat,
      run step (initWithInterval 5 true .intervalBetweenBlockExecutions (some (2 * ·)))
          (doubling .intervalBetweenBlockExecutions) = .ok t ∧
        armedIntervals t.log = [5, 10, 10] := ⟨_, rfl, rfl⟩
  obtain ⟨t', hrun'⟩ : ∃ t' : BRUTimer Nat,
      run step (initWithInterval 5 true .intervalClockedOnWallClockTime (some (2 * ·)))
        (doubling .intervalClockedOnWallClockTime) = .ok t' := ⟨_, rfl⟩
  refine ⟨t, t', hrun, hrun', harmed, ?_⟩
  exact (armed_eq_reference (by decide) (by decide) hrun hrun').2 (by decide)

end BRUTimer

end BromiumCoreUtils
