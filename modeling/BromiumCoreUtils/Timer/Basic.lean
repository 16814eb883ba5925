import Mathlib.Algebra.Group.Nat.Defs
import BromiumCoreUtils.Foundation
import BromiumCoreUtils.Lib.Machine

/-!
# `BRUTimer`

The model of one `BRUTimer` that stays alive.  `BRUTimer` holds the fields of
the object and the work that is on its way, and `step` runs one stretch of
code that nothing else on `syncQ` can interrupt.

`setupTimer` takes three steps of its own: it is called, it reads the
generation in a block on `syncQ`, and it registers its `dispatch_after`.  Other
threads get in between, so a call is kept in `due`, then in `reads`, and ends
as an expiry in `pending`.

The blocks wait in lists from which any element may go next.  The global queue
runs its blocks in any order, `targetQ` may be a concurrent queue of the
client, and which expiry is due first is up to the clock.

Calls of `resume`, `restart`, `restartWithInterval:`, `suspend` and `fire` may
come at any time, from other threads as well as from the block of the timer.
-/

namespace BromiumCoreUtils

open Machine

/-- `BRUTimerMode`. -/
inductive BRUTimerMode where
  | intervalBetweenBlockExecutions
  | intervalClockedOnWallClockTime
deriving DecidableEq, Repr

/-- Who called `setupTimer`. -/
inductive SetupCaller where
  | resume
  | preFireBlock
  | postFireBlock
deriving DecidableEq, Repr

/-- A call of `setupTimer` that has not read the generation yet. -/
structure SetupCall where
  call : Nat
  caller : SetupCaller
deriving DecidableEq, Repr

/-- A call of `setupTimer` that has read the generation. -/
structure GenerationRead where
  setup : SetupCall
  generation : Nat
deriving DecidableEq, Repr

/-- A registered `dispatch_after`, with the generation that its block
captured. -/
structure Expiry where
  call : Nat
  generation : Nat
deriving DecidableEq, Repr

/-- The block that `fireWithDate:postFireBlock:` calls last. -/
inductive PostFireBlock where
  | empty
  | setupTimerBlock
deriving DecidableEq, Repr

/-- What the timer does, in order. -/
inductive TimerObservation (D : Type) where
  /-- The block of `resumeWithUpdateInterval:interval:` ran on `syncQ`. -/
  | resumed
  /-- The block of `suspend` ran on `syncQ`. -/
  | suspended
  /-- `setupTimer` read the generation. -/
  | generationRead (call : Nat)
  /-- `setupTimer` called `dispatch_after`. -/
  | armed (call : Nat) (interval : D)
  /-- An expiry passed the guard. -/
  | fired (call : Nat)
deriving DecidableEq, Repr

/-- `BRUTimer`, over the type `D` of intervals. -/
structure BRUTimer (D : Type) where
  initialInterval : D
  adjustFun : D → D
  /-- The property `repeat`. -/
  repeats : Bool
  mode : BRUTimerMode
  running : Bool
  generation : Nat
  currentInterval : D
  -- the calls of `setupTimer`, and the expiries they register
  calls : Nat
  due : List SetupCall
  reads : List GenerationRead
  pending : List Expiry
  /-- The blocks on the global queue. -/
  hops : Nat
  /-- The blocks of `fireWithDate:postFireBlock:` on `targetQ`. -/
  fires : List PostFireBlock
  /-- The ones of them that are running. -/
  executing : List PostFireBlock
  /-- The blocks of `suspend` on `syncQ`. -/
  suspends : Nat
  log : List (TimerObservation D)

namespace BRUTimer

variable {D : Type}

/-- `-initWithInterval:block:onQueue:repeats:mode:adjustInterval:`. -/
def initWithInterval (interval : D) (repeats : Bool) (mode : BRUTimerMode)
    (adjustInterval : Option (D → D)) : BRUTimer D where
  initialInterval := interval
  adjustFun := adjustInterval.getD id
  repeats := repeats
  mode := mode
  running := false
  generation := 0
  currentInterval := interval
  calls := 0
  due := []
  reads := []
  pending := []
  hops := 0
  fires := []
  executing := []
  suspends := 0
  log := []

/-- A call of `-setupTimer`. -/
def setupTimer (caller : SetupCaller) (t : BRUTimer D) : BRUTimer D :=
  { t with calls := t.calls + 1, due := t.due ++ [⟨t.calls, caller⟩] }

/-- `-setupTimer` reads `self.generation`, on `syncQ`. -/
def readGeneration (setup : SetupCall) (t : BRUTimer D) : BRUTimer D :=
  { t with
    due := t.due.erase setup
    reads := t.reads ++ [⟨setup, t.generation⟩]
    log := t.log ++ [.generationRead setup.call] }

/-- `-fireWithDate:postFireBlock:`. -/
def fireWithDate (postFireBlock : PostFireBlock) (t : BRUTimer D) : BRUTimer D :=
  { t with fires := t.fires ++ [postFireBlock] }

/-- `-setupTimer` calls `dispatch_after`.  The call that a `preFireBlock` makes
is followed by the fire. -/
def registerExpiry (read : GenerationRead) (t : BRUTimer D) : BRUTimer D :=
  let registered : BRUTimer D :=
    { t with
      reads := t.reads.erase read
      pending := t.pending ++ [⟨read.setup.call, read.generation⟩]
      log := t.log ++ [.armed read.setup.call t.currentInterval] }
  match read.setup.caller with
  | .preFireBlock => registered.fireWithDate .empty
  | _ => registered

/-- The block that `-setupTimer` gives to `dispatch_after`. -/
def expiryBlock (expiry : Expiry) (t : BRUTimer D) : Exec Assertion (BRUTimer D) := do
  assertThat (0 < t.generation ∧ expiry.generation ≤ t.generation) .generationAhead
  if expiry.generation ≠ t.generation ∨ t.running = false then
    pure t -- fired in older generation or not running, ignoring
  else
    pure { t with
      currentInterval := t.adjustFun t.currentInterval
      running := if t.repeats then t.running else false
      hops := t.hops + 1
      log := t.log ++ [.fired expiry.call] }

/-- `setupTimerBlock`. -/
def setupTimerBlock (caller : SetupCaller) (t : BRUTimer D) : BRUTimer D :=
  if t.repeats then t.setupTimer caller else t

/-- The block on the global queue, up to the call of `setupTimer` if its
`preFireBlock` makes one. -/
def hopBlock (t : BRUTimer D) : BRUTimer D :=
  match t.mode with
  | .intervalBetweenBlockExecutions => t.fireWithDate .setupTimerBlock
  | .intervalClockedOnWallClockTime =>
    if t.repeats then t.setupTimer .preFireBlock else t.fireWithDate .empty

/-- What follows `self.block` in the block of `fireWithDate:postFireBlock:`. -/
def runPostFireBlock (postFireBlock : PostFireBlock) (t : BRUTimer D) : BRUTimer D :=
  match postFireBlock with
  | .empty => t
  | .setupTimerBlock => t.setupTimerBlock .postFireBlock

/-- `-resumeWithUpdateInterval:interval:`: its block, and the call of
`setupTimer` that follows.  The generation is an `NSUInteger`. -/
def resumeWithUpdateInterval (interval : Option D) (t : BRUTimer D) : BRUTimer D :=
  let resumed : BRUTimer D :=
    { t with
      currentInterval := interval.getD t.currentInterval
      generation := (t.generation + 1) % 2 ^ 64
      running := true
      log := t.log ++ [.resumed] }
  resumed.setupTimer .resume

/-- `-restart`. -/
def restart (t : BRUTimer D) : BRUTimer D :=
  t.resumeWithUpdateInterval (some t.initialInterval)

/-- `-restartWithInterval:`. -/
def restartWithInterval (interval : D) (t : BRUTimer D) : BRUTimer D :=
  t.resumeWithUpdateInterval (some interval)

/-- `-resume`. -/
def resume (t : BRUTimer D) : BRUTimer D :=
  t.resumeWithUpdateInterval none

/-- `+scheduledTimerWithInterval:block:onQueue:repeats:mode:adjustInterval:`.
No block can reach the timer before it is returned, so its `setupTimer` is not
interrupted. -/
def scheduledTimerWithInterval (interval : D) (repeats : Bool) (mode : BRUTimerMode)
    (adjustInterval : Option (D → D)) : BRUTimer D :=
  let setup : SetupCall := ⟨0, .resume⟩
  ((initWithInterval interval repeats mode adjustInterval).resume.readGeneration
    setup).registerExpiry ⟨setup, 1⟩

/-- `-fire`. -/
def fire (t : BRUTimer D) : BRUTimer D :=
  t.fireWithDate .empty

/-- `-suspend` queues its block. -/
def suspend (t : BRUTimer D) : BRUTimer D :=
  { t with suspends := t.suspends + 1 }

/-! ## The machine -/

/-- What happens next. -/
inductive Event (D : Type) where
  /-- The assertion of `start`; its call of `restart` is an event of its own. -/
  | start
  | restart
  | restartWithInterval (interval : D)
  | resume
  | suspend
  | fire
  | readGeneration (setup : SetupCall)
  | registerExpiry (read : GenerationRead)
  | expiryBlock (expiry : Expiry)
  | hopBlock
  /-- A block of `fireWithDate:postFireBlock:` begins. -/
  | beginFire (postFireBlock : PostFireBlock)
  /-- The client's block returns. -/
  | endFire (postFireBlock : PostFireBlock)
  /-- The block of `suspend`. -/
  | runSuspend
deriving Repr

/-- Run one stretch of code. -/
def step (t : BRUTimer D) : Event D → Exec Assertion (BRUTimer D)
  | .start => do
    assertThat (t.running = false) .alreadyRunning
    pure t
  | .restart => pure t.restart
  | .restartWithInterval interval => pure (t.restartWithInterval interval)
  | .resume => pure t.resume
  | .suspend => pure t.suspend
  | .fire => pure t.fire
  | .readGeneration setup => do
    enabledIf (setup ∈ t.due)
    pure (t.readGeneration setup)
  | .registerExpiry read => do
    enabledIf (read ∈ t.reads)
    pure (t.registerExpiry read)
  | .expiryBlock expiry => do
    enabledIf (expiry ∈ t.pending)
    expiryBlock expiry { t with pending := t.pending.erase expiry }
  | .hopBlock => do
    enabledIf (0 < t.hops)
    pure (hopBlock { t with hops := t.hops - 1 })
  | .beginFire postFireBlock => do
    enabledIf (postFireBlock ∈ t.fires)
    pure { t with
      fires := t.fires.erase postFireBlock
      executing := t.executing ++ [postFireBlock] }
  | .endFire postFireBlock => do
    enabledIf (postFireBlock ∈ t.executing)
    pure (runPostFireBlock postFireBlock
      { t with executing := t.executing.erase postFireBlock })
  | .runSuspend => do
    enabledIf (0 < t.suspends)
    pure { t with
      suspends := t.suspends - 1
      running := false
      log := t.log ++ [.suspended] }

/-! ## The block on the global queue, by mode -/

/-- Between executions the block runs first and `setupTimer` is called after
it. -/
theorem hopBlock_between {t : BRUTimer D} (hmode : t.mode = .intervalBetweenBlockExecutions) :
    hopBlock t = t.fireWithDate .setupTimerBlock := by
  simp [hopBlock, hmode]

/-- On wall clock time `setupTimer` is called first. -/
theorem hopBlock_wallClock {t : BRUTimer D} (hmode : t.mode = .intervalClockedOnWallClockTime)
    (hrep : t.repeats = true) : hopBlock t = t.setupTimer .preFireBlock := by
  simp [hopBlock, hmode, hrep]

/-- Without `repeat` the block on the global queue is a fire. -/
theorem hopBlock_once {t : BRUTimer D} (hrep : t.repeats = false) :
    ∃ postFireBlock, hopBlock t = t.fireWithDate postFireBlock := by
  cases hmode : t.mode with
  | intervalBetweenBlockExecutions => exact ⟨_, hopBlock_between hmode⟩
  | intervalClockedOnWallClockTime => exact ⟨.empty, by simp [hopBlock, hmode, hrep]⟩

@[simp] theorem hopBlock_running (t : BRUTimer D) : (hopBlock t).running = t.running := by
  cases hmode : t.mode <;> cases hrep : t.repeats <;>
    simp [hopBlock, hmode, hrep, fireWithDate, setupTimer]

@[simp] theorem runPostFireBlock_running (postFireBlock : PostFireBlock) (t : BRUTimer D) :
    (t.runPostFireBlock postFireBlock).running = t.running := by
  cases postFireBlock <;> cases hrep : t.repeats <;>
    simp [runPostFireBlock, setupTimerBlock, hrep, setupTimer]

@[simp] theorem registerExpiry_running (read : GenerationRead) (t : BRUTimer D) :
    (t.registerExpiry read).running = t.running := by
  unfold registerExpiry
  split <;> rfl

/-! ## What a step does -/

/-- One step, by the branch that it takes.  The four calls that resume the
timer differ in the interval they leave behind. -/
inductive Transition : BRUTimer D → Event D → BRUTimer D → Prop where
  | start {t : BRUTimer D} (hrunning : t.running = false) : Transition t .start t
  | resume {t : BRUTimer D} {e : Event D} (interval : Option D)
      (he : (e = .resume ∧ interval = none) ∨
        (e = .restart ∧ interval = some t.initialInterval) ∨
        ∃ v, e = .restartWithInterval v ∧ interval = some v) :
      Transition t e (t.resumeWithUpdateInterval interval)
  | suspend {t : BRUTimer D} : Transition t .suspend t.suspend
  | fire {t : BRUTimer D} : Transition t .fire t.fire
  | readGeneration {t : BRUTimer D} {setup : SetupCall} (hmem : setup ∈ t.due) :
      Transition t (.readGeneration setup) (t.readGeneration setup)
  | registerExpiry {t : BRUTimer D} {read : GenerationRead} (hmem : read ∈ t.reads) :
      Transition t (.registerExpiry read) (t.registerExpiry read)
  | dropped {t : BRUTimer D} {expiry : Expiry} (hmem : expiry ∈ t.pending)
      (hpos : 0 < t.generation) (hle : expiry.generation ≤ t.generation)
      (hguard : expiry.generation ≠ t.generation ∨ t.running = false) :
      Transition t (.expiryBlock expiry) { t with pending := t.pending.erase expiry }
  | fired {t : BRUTimer D} {expiry : Expiry} (hmem : expiry ∈ t.pending)
      (hpos : 0 < t.generation) (hgen : expiry.generation = t.generation)
      (hrunning : t.running = true) :
      Transition t (.expiryBlock expiry)
        { t with
          pending := t.pending.erase expiry
          currentInterval := t.adjustFun t.currentInterval
          running := if t.repeats then t.running else false
          hops := t.hops + 1
          log := t.log ++ [.fired expiry.call] }
  | hopBlock {t : BRUTimer D} (hpos : 0 < t.hops) :
      Transition t .hopBlock (hopBlock { t with hops := t.hops - 1 })
  | beginFire {t : BRUTimer D} {postFireBlock : PostFireBlock}
      (hmem : postFireBlock ∈ t.fires) :
      Transition t (.beginFire postFireBlock)
        { t with
          fires := t.fires.erase postFireBlock
          executing := t.executing ++ [postFireBlock] }
  | endFire {t : BRUTimer D} {postFireBlock : PostFireBlock}
      (hmem : postFireBlock ∈ t.executing) :
      Transition t (.endFire postFireBlock)
        (runPostFireBlock postFireBlock
          { t with executing := t.executing.erase postFireBlock })
  | runSuspend {t : BRUTimer D} (hpos : 0 < t.suspends) :
      Transition t .runSuspend
        { t with
          suspends := t.suspends - 1
          running := false
          log := t.log ++ [.suspended] }

/-- The list of steps is complete. -/
theorem step_transition {t t' : BRUTimer D} {e : Event D} (h : step t e = .ok t') :
    Transition t e t' := by
  cases e with
  | start =>
    simp only [step, bind_eq_ok, assertThat_eq_ok, pure_eq_ok] at h
    obtain ⟨_, hrunning, h⟩ := h
    rw [← h]
    exact .start hrunning
  | restart =>
    rw [← pure_eq_ok.mp h]
    exact .resume _ (by simp)
  | restartWithInterval interval =>
    rw [← pure_eq_ok.mp h]
    exact .resume _ (by simp)
  | resume =>
    rw [← pure_eq_ok.mp h]
    exact .resume _ (by simp)
  | suspend =>
    rw [← pure_eq_ok.mp h]
    exact .suspend
  | fire =>
    rw [← pure_eq_ok.mp h]
    exact .fire
  | readGeneration setup =>
    simp only [step, bind_eq_ok, enabledIf_eq_ok, pure_eq_ok] at h
    obtain ⟨_, hmem, h⟩ := h
    rw [← h]
    exact .readGeneration hmem
  | registerExpiry read =>
    simp only [step, bind_eq_ok, enabledIf_eq_ok, pure_eq_ok] at h
    obtain ⟨_, hmem, h⟩ := h
    rw [← h]
    exact .registerExpiry hmem
  | expiryBlock expiry =>
    simp only [step, BRUTimer.expiryBlock, bind_eq_ok, enabledIf_eq_ok, assertThat_eq_ok] at h
    obtain ⟨_, hmem, _, ⟨hpos, hle⟩, h⟩ := h
    split at h
    · rename_i hguard
      rw [← pure_eq_ok.mp h]
      exact .dropped hmem hpos hle hguard
    · rename_i hguard
      rw [not_or, not_not, Bool.not_eq_false] at hguard
      rw [← pure_eq_ok.mp h]
      exact .fired hmem hpos hguard.1 hguard.2
  | hopBlock =>
    simp only [step, bind_eq_ok, enabledIf_eq_ok, pure_eq_ok] at h
    obtain ⟨_, hpos, h⟩ := h
    rw [← h]
    exact .hopBlock hpos
  | beginFire postFireBlock =>
    simp only [step, bind_eq_ok, enabledIf_eq_ok, pure_eq_ok] at h
    obtain ⟨_, hmem, h⟩ := h
    rw [← h]
    exact .beginFire hmem
  | endFire postFireBlock =>
    simp only [step, bind_eq_ok, enabledIf_eq_ok, pure_eq_ok] at h
    obtain ⟨_, hmem, h⟩ := h
    rw [← h]
    exact .endFire hmem
  | runSuspend =>
    simp only [step, bind_eq_ok, enabledIf_eq_ok, pure_eq_ok] at h
    obtain ⟨_, hpos, h⟩ := h
    rw [← h]
    exact .runSuspend hpos

end BRUTimer

end BromiumCoreUtils
