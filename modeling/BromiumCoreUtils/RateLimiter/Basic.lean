import BromiumCoreUtils.Box.Basic
import BromiumCoreUtils.Foundation
import BromiumCoreUtils.Lib.Machine

/-!
# `BRURateLimiter`

The model of one `BRURateLimiter` that stays alive.  Its `setResult:` is two
steps, the swap and, if the box was empty, the `dispatch_async`; setters on
other threads come in between, so the calls that still have to enqueue are
counted in `enqueues`.

The block on `syncQueue` is a `Delivery` that moves on step by step.  It
suspends the queue that it runs on, and the queue starts its next block when
the running one has returned and the queue is not suspended.

A completion block may be called from the moment that `resultBlock` gets it: in
`resultBlock` or later, from any thread.  Calling it twice fails an assertion.
-/

namespace BromiumCoreUtils

open Machine

/-- Where the block on `syncQueue` stands. -/
inductive Delivery (T : Type) where
  /-- It is about to take the value. -/
  | take
  /-- It is about to enter `performSetResult:`. -/
  | performSetResult (result : T)
  /-- It is about to call `resultBlock`. -/
  | resultBlock (result : T) (completionBlock : Nat)
  /-- It is in `resultBlock`. -/
  | inResultBlock
deriving DecidableEq, Repr

/-- What the rate limiter does, in order. -/
inductive RateLimiterObservation (T : Type) where
  /-- A `setResult:` swapped its value in. -/
  | set (result : T)
  /-- `resultBlock` was called. -/
  | resultBlock (result : T) (completionBlock : Nat)
  /-- A completion block was called. -/
  | completion (completionBlock : Nat)
deriving DecidableEq, Repr

/-- `BRURateLimiter`, over the type `T` of results. -/
structure BRURateLimiter (T : Type) where
  concurrentBox : BRUConcurrentBox T
  /-- The property `completionBlock`, as the address of the block. -/
  completionBlock : Option Nat
  -- the queue, and the setters that have swapped and not enqueued
  suspendCount : Int
  syncQueue : Nat
  delivery : Option (Delivery T)
  enqueues : Nat
  -- the completion blocks that were made, and the ones the client was given
  completionBlocks : Nat
  given : List Nat
  completionBlockDidRun : Nat → Bool
  log : List (RateLimiterObservation T)

namespace BRURateLimiter

variable {T : Type}

/-- `-initWithTargetQueue:resultBlock:`. -/
def initWithTargetQueue : BRURateLimiter T where
  concurrentBox := .emptyBox
  completionBlock := none
  suspendCount := 0
  syncQueue := 0
  delivery := none
  enqueues := 0
  completionBlocks := 0
  given := []
  completionBlockDidRun := fun _ => false
  log := []

/-- `-setResult:`, up to its `dispatch_async`. -/
def setResult (result : T) (l : BRURateLimiter T) : BRURateLimiter T :=
  let (old, box) := l.concurrentBox.trySwapWithValue result
  { l with
    concurrentBox := box
    enqueues := if old.isNone then l.enqueues + 1 else l.enqueues
    log := l.log ++ [.set result] }

/-- `-performSetResult:`, up to the call of `resultBlock`. -/
def performSetResult (result : T) (l : BRURateLimiter T) :
    Exec Assertion (BRURateLimiter T) := do
  assertThat (l.completionBlock = none) .completionBlockNotNil
  pure { l with
    completionBlock := some l.completionBlocks
    completionBlocks := l.completionBlocks + 1
    completionBlockDidRun :=
      Function.update l.completionBlockDidRun l.completionBlocks false
    suspendCount := l.suspendCount + 1
    delivery := some (.resultBlock result l.completionBlocks) }

/-- A completion block. -/
def runCompletionBlock (completionBlock : Nat) (l : BRURateLimiter T) :
    Exec Assertion (BRURateLimiter T) := do
  assertThat (l.completionBlockDidRun completionBlock = false) .completionBlockDidRun
  pure { l with
    completionBlockDidRun := Function.update l.completionBlockDidRun completionBlock true
    completionBlock := none
    suspendCount := l.suspendCount - 1
    log := l.log ++ [.completion completionBlock] }

/-! ## The machine -/

/-- What happens next. -/
inductive Event (T : Type) where
  | setResult (result : T)
  /-- The `dispatch_async` of a `setResult:` that found the box empty. -/
  | enqueue
  /-- The next block of `syncQueue` begins. -/
  | beginDelivery
  | take
  | performSetResult
  | callResultBlock
  /-- `resultBlock` returns, and with it the block of `syncQueue`. -/
  | endDelivery
  | completion (completionBlock : Nat)
deriving Repr

/-- Take one step. -/
def step (l : BRURateLimiter T) : Event T → Exec Assertion (BRURateLimiter T)
  | .setResult result => pure (l.setResult result)
  | .enqueue => do
    enabledIf (0 < l.enqueues)
    pure { l with enqueues := l.enqueues - 1, syncQueue := l.syncQueue + 1 }
  | .beginDelivery => do
    enabledIf (l.delivery.isNone = true ∧ l.suspendCount = 0 ∧ 0 < l.syncQueue)
    pure { l with syncQueue := l.syncQueue - 1, delivery := some .take }
  | .take =>
    match l.delivery with
    | some .take =>
      match l.concurrentBox.take with
      | none => .error .disabled
      | some (result, box) =>
        pure { l with concurrentBox := box, delivery := some (.performSetResult result) }
    | _ => .error .disabled
  | .performSetResult =>
    match l.delivery with
    | some (.performSetResult result) => performSetResult result l
    | _ => .error .disabled
  | .callResultBlock =>
    match l.delivery with
    | some (.resultBlock result completionBlock) =>
      pure { l with
        delivery := some .inResultBlock
        given := l.given ++ [completionBlock]
        log := l.log ++ [.resultBlock result completionBlock] }
    | _ => .error .disabled
  | .endDelivery =>
    match l.delivery with
    | some .inResultBlock => pure { l with delivery := none }
    | _ => .error .disabled
  | .completion completionBlock => do
    enabledIf (completionBlock ∈ l.given)
    runCompletionBlock completionBlock l

/-! ## What a step does -/

/-- One step. -/
inductive Transition : BRURateLimiter T → Event T → BRURateLimiter T → Prop where
  | setEmpty {l : BRURateLimiter T} {result : T} (hbox : l.concurrentBox.value = none) :
      Transition l (.setResult result)
        { l with
          concurrentBox := ⟨some result⟩
          enqueues := l.enqueues + 1
          log := l.log ++ [.set result] }
  | setFull {l : BRURateLimiter T} {result old : T}
      (hbox : l.concurrentBox.value = some old) :
      Transition l (.setResult result)
        { l with concurrentBox := ⟨some result⟩, log := l.log ++ [.set result] }
  | enqueue {l : BRURateLimiter T} (hpos : 0 < l.enqueues) :
      Transition l .enqueue
        { l with enqueues := l.enqueues - 1, syncQueue := l.syncQueue + 1 }
  | beginDelivery {l : BRURateLimiter T} (hdelivery : l.delivery = none)
      (hsuspend : l.suspendCount = 0) (hpos : 0 < l.syncQueue) :
      Transition l .beginDelivery
        { l with syncQueue := l.syncQueue - 1, delivery := some .take }
  | take {l : BRURateLimiter T} {result : T} (hdelivery : l.delivery = some .take)
      (hbox : l.concurrentBox.value = some result) :
      Transition l .take
        { l with concurrentBox := .emptyBox, delivery := some (.performSetResult result) }
  | performSetResult {l : BRURateLimiter T} {result : T}
      (hdelivery : l.delivery = some (.performSetResult result))
      (hnil : l.completionBlock = none) :
      Transition l .performSetResult
        { l with
          completionBlock := some l.completionBlocks
          completionBlocks := l.completionBlocks + 1
          completionBlockDidRun :=
            Function.update l.completionBlockDidRun l.completionBlocks false
          suspendCount := l.suspendCount + 1
          delivery := some (.resultBlock result l.completionBlocks) }
  | callResultBlock {l : BRURateLimiter T} {result : T} {completionBlock : Nat}
      (hdelivery : l.delivery = some (.resultBlock result completionBlock)) :
      Transition l .callResultBlock
        { l with
          delivery := some .inResultBlock
          given := l.given ++ [completionBlock]
          log := l.log ++ [.resultBlock result completionBlock] }
  | endDelivery {l : BRURateLimiter T} (hdelivery : l.delivery = some .inResultBlock) :
      Transition l .endDelivery { l with delivery := none }
  | completion {l : BRURateLimiter T} {completionBlock : Nat}
      (hgiven : completionBlock ∈ l.given)
      (hfirst : l.completionBlockDidRun completionBlock = false) :
      Transition l (.completion completionBlock)
        { l with
          completionBlockDidRun :=
            Function.update l.completionBlockDidRun completionBlock true
          completionBlock := none
          suspendCount := l.suspendCount - 1
          log := l.log ++ [.completion completionBlock] }

/-- The list of steps is complete. -/
theorem step_transition {l l' : BRURateLimiter T} {e : Event T} (h : step l e = .ok l') :
    Transition l e l' := by
  cases e with
  | setResult result =>
    rw [← pure_eq_ok.mp h]
    cases hbox : l.concurrentBox.value with
    | none =>
      rw [show l.setResult result = _ by
        simp only [setResult, BRUConcurrentBox.trySwapWithValue, hbox, Option.isNone_none,
          if_true]; rfl]
      exact .setEmpty hbox
    | some old =>
      rw [show l.setResult result = _ by
        simp only [setResult, BRUConcurrentBox.trySwapWithValue, hbox, Option.isNone_some,
          Bool.false_eq_true, if_false]; rfl]
      exact .setFull hbox
  | enqueue =>
    simp only [step, bind_eq_ok, enabledIf_eq_ok, pure_eq_ok] at h
    obtain ⟨_, hpos, h⟩ := h
    rw [← h]
    exact .enqueue hpos
  | beginDelivery =>
    simp only [step, bind_eq_ok, enabledIf_eq_ok, pure_eq_ok] at h
    obtain ⟨_, ⟨hdelivery, hsuspend, hpos⟩, h⟩ := h
    rw [← h]
    exact .beginDelivery (Option.isNone_iff_eq_none.mp hdelivery) hsuspend hpos
  | take =>
    simp only [step] at h
    split at h
    · rename_i hdelivery
      split at h
      · cases h
      · rename_i result box htake
        obtain ⟨hbox, hempty⟩ := BRUConcurrentBox.take_eq_some.mp htake
        rw [← pure_eq_ok.mp h, hempty]
        exact .take hdelivery hbox
    · cases h
  | performSetResult =>
    simp only [step] at h
    split at h
    · rename_i result hdelivery
      simp only [BRURateLimiter.performSetResult, bind_eq_ok, assertThat_eq_ok,
        pure_eq_ok] at h
      obtain ⟨_, hnil, h⟩ := h
      rw [← h]
      exact .performSetResult hdelivery hnil
    · cases h
  | callResultBlock =>
    simp only [step] at h
    split at h
    · rename_i result completionBlock hdelivery
      rw [← pure_eq_ok.mp h]
      exact .callResultBlock hdelivery
    · cases h
  | endDelivery =>
    simp only [step] at h
    split at h
    · rename_i hdelivery
      rw [← pure_eq_ok.mp h]
      exact .endDelivery hdelivery
    · cases h
  | completion completionBlock =>
    simp only [step, runCompletionBlock, bind_eq_ok, enabledIf_eq_ok, assertThat_eq_ok,
      pure_eq_ok] at h
    obtain ⟨_, hgiven, _, hfirst, h⟩ := h
    rw [← h]
    exact .completion hgiven hfirst

end BRURateLimiter

end BromiumCoreUtils
