import Mathlib.Algebra.Group.Nat.Defs
import Mathlib.Logic.Function.Basic
import BromiumCoreUtils.Deferred.Basic
import BromiumCoreUtils.Lib.Log

/-!
# `BRURetry`

The model of one `BRURetry` object.  `BRURetry` holds the properties of the
object, the blocks queued on its two serial queues, the continuation blocks
that the client has not called yet, and the deferreds it has made.  The
functions carry the names of the methods, and each of them is the part of the
method that runs on `syncQueue`.

`step` runs one block.  An `Event` names the block and carries what the
client answers: the result of an action, the response of the policy and the
delay it leaves behind.  A synchronous call (`startWithCompletionBlock:`,
`cancel:`) runs between any two queued blocks, because its block may have
been queued before all of them.

Three points are fixed here.

* The object stays alive, so every `BRU_strongify` succeeds.
* A timer is known by its address.  Here the timer that `self.timer` holds may
  call back once, and a timer that was released never does.
  `BromiumCoreUtils.Retry.TimerRace` replaces that by the timer itself.
* `log` records what the object did, in order.  No function reads it.
-/

namespace BromiumCoreUtils

open Machine

/-- `BRURetryStatus`. -/
inductive BRURetryStatus where
  | transient
  | final
deriving DecidableEq, Repr

/-- `BRURetryPolicyResponse`. -/
inductive BRURetryPolicyResponse where
  | retry
  | stop
deriving DecidableEq, Repr

/-- `BRURetryState`. -/
inductive BRURetryState where
  | idle
  | delay
  | activeWaiting
  | activeCancelling
deriving DecidableEq, Repr

/-- `BRURetryResult`. -/
structure BRURetryResult where
  success : Bool
  error : Option NSError
deriving DecidableEq, Repr

/-- The arguments of a `BRURetryContinuationBlock`. -/
structure ContinuationResult where
  success : Bool
  error : Option NSError
  status : BRURetryStatus
deriving DecidableEq, Repr

/-- A timer made by `scheduleNextAction`: its address, its interval, and the
identifier that its block captured. -/
structure RetryTimer (U D : Type) where
  address : Nat
  interval : D
  identifier : Option U
deriving DecidableEq, Repr

/-- The then-block that `startWithCompletionBlock:` wraps around a completion
block.  Every call makes a new one, at its own address. -/
structure RetryThenBlock (K : Type) where
  address : Nat
  completionBlock : K
deriving DecidableEq, Repr

/-- A block queued on `syncQueue`. -/
inductive RetrySyncBlock (D : Type) where
  /-- What `continuationBlock` queues. -/
  | continuation (attempt : Nat) (result : ContinuationResult)
  /-- What the policy's block queues. -/
  | policyResult (success : Bool) (error : Option NSError)
      (response : BRURetryPolicyResponse) (nextDelay : D)
deriving DecidableEq, Repr

/-- A block queued on `targetQueue`. -/
inductive RetryTargetBlock (D K : Type) where
  /-- The call of `actionBlock`. -/
  | action (attempt : Nat)
  /-- The call of `policyBlock`, with the `__block` variable `nextDelay`. -/
  | policy (success : Bool) (error : Option NSError) (attempt : Nat) (nextDelay : D)
  /-- The call of a then-block, dispatched by the deferred of a run. -/
  | completion (run : Nat) (block : RetryThenBlock K)
deriving DecidableEq, Repr

/-- What the object does, as the outside sees it. -/
inductive RetryObservation (U D K : Type) where
  /-- A start ran in `state` and left `identifier` to return. -/
  | start (state : BRURetryState) (identifier : Option U)
  /-- `cancel: identifier` returned `success`. -/
  | cancel (identifier : U) (success : Bool)
  | performAction (attempt : Nat)
  /-- The continuation block of an attempt was called. -/
  | continuation (attempt : Nat) (result : ContinuationResult)
  /-- The policy was called with `*delay == entry` and left `left` there. -/
  | policy (attempt : Nat) (error : Option NSError) (entry : D)
      (response : BRURetryPolicyResponse) (left : D)
  | schedule (timer : RetryTimer U D)
  | suspend (address : Nat)
  /-- `then:` on the deferred of a run. -/
  | register (run : Nat) (block : RetryThenBlock K)
  /-- `resolve:` on the deferred of a run. -/
  | resolve (run : Nat) (result : BRURetryResult)
  /-- The completion block of a then-block was called. -/
  | completion (run : Nat) (block : RetryThenBlock K) (success : Bool)
      (error : Option NSError)
deriving DecidableEq, Repr

/-- `BRURetry`, over the types `U` of identifiers, `D` of delays and `K` of
completion blocks. -/
structure BRURetry (U D K : Type) where
  -- the properties of the object
  delay : D
  timer : Option (RetryTimer U D)
  attempt : Nat
  state : BRURetryState
  currentDelay : D
  identifier : Option U
  deferred : Option Nat
  -- the work in flight
  syncQueue : List (RetrySyncBlock D)
  targetQueue : List (RetryTargetBlock D K)
  continuations : List Nat
  -- the objects that were allocated: deferreds, timers and then-blocks
  deferreds : Nat → BRUDeferred (RetryThenBlock K) BRURetryResult
  runs : Nat
  timers : Nat
  thenBlocks : Nat
  log : List (RetryObservation U D K)

namespace BRURetry

variable {U D K : Type} [DecidableEq U] [ToString U] [NSTimeInterval D]

/-- `+cancellationErrorWithIdentifier:`. -/
def cancellationErrorWithIdentifier (identifier : Option U) : NSError where
  domain := "NSPOSIXErrorDomain"
  code := 89 -- ECANCELED
  userInfo := [(BRUErrorReasonKey,
    "Retry attempt with identifier " ++
      (match identifier with | none => "(null)" | some id => toString id) ++
      " cancelled.")]

/-- `-initWithActionBlock:policyBlock:delay:targetQueue:`.  The action and the
policy are the client's, so their answers come with the events.  No line
assigns `_currentDelay`, nor `_identifier`. -/
def initWithActionBlock (delay : D) : BRURetry U D K where
  delay := delay
  timer := none
  attempt := 0
  state := .idle
  currentDelay := NSTimeInterval.zero
  identifier := none
  deferred := none
  syncQueue := []
  targetQueue := []
  continuations := []
  deferreds := fun _ => .init
  runs := 0
  timers := 0
  thenBlocks := 0
  log := []

def record (o : RetryObservation U D K) (r : BRURetry U D K) : BRURetry U D K :=
  { r with log := r.log ++ [o] }

/-- The condition that `-checkInvariants` asserts. -/
def invariantsHold (r : BRURetry U D K) : Bool :=
  (r.state == .idle && r.timer.isNone && r.attempt == 0 && r.identifier.isNone &&
      NSTimeInterval.doubleEquals r.currentDelay r.delay && r.deferred.isNone) ||
    (r.state == .delay && r.timer.isSome && decide (0 < r.attempt) &&
      r.identifier.isSome && r.deferred.isSome) ||
    (r.state == .activeWaiting && r.timer.isNone && decide (0 < r.attempt) &&
      r.identifier.isSome && r.deferred.isSome) ||
    (r.state == .activeCancelling && r.timer.isNone && decide (0 < r.attempt) &&
      r.identifier.isSome && r.deferred.isSome)

/-- `-checkInvariants`. -/
def checkInvariants (r : BRURetry U D K) : Exec Assertion Unit :=
  assertThat (r.invariantsHold = true) .invalidState

/-- `[[self.deferred promise] then:block]`.  A message to `nil` does
nothing. -/
def thenOnDeferred (completionBlock : K) (r : BRURetry U D K) : BRURetry U D K :=
  let block : RetryThenBlock K := ⟨r.thenBlocks, completionBlock⟩
  match r.deferred with
  | none => r
  | some run =>
    { r with
      thenBlocks := r.thenBlocks + 1
      deferreds := Function.update r.deferreds run ((r.deferreds run).then_ block)
      log := r.log ++ [.register run block] }

/-- `[deferred resolve:result]`, for a deferred read from `self.deferred`
earlier on. -/
def resolve (deferred : Option Nat) (result : BRURetryResult) (r : BRURetry U D K) :
    BRURetry U D K :=
  match deferred with
  | none => r
  | some run =>
    { r with
      deferreds := Function.update r.deferreds run ((r.deferreds run).resolve (some result))
      log := r.log ++ [.resolve run result] }

/-- `[self.timer suspend]`. -/
def suspendTimer (r : BRURetry U D K) : BRURetry U D K :=
  { r with log := r.log ++ (r.timer.map fun timer => .suspend timer.address).toList }

/-- `-performAction`, up to the `dispatch_async` of the action.  The counter is
an `NSUInteger`. -/
def performAction (r : BRURetry U D K) : Exec Assertion (BRURetry U D K) := do
  let attempt := (r.attempt + 1) % 2 ^ 64
  assertThat (r.state = .activeWaiting) .performActionNotRunning
  pure { r with
    attempt := attempt
    targetQueue := r.targetQueue ++ [.action attempt]
    log := r.log ++ [.performAction attempt] }

/-- `-scheduleNextAction`.  The new timer's block captures the identifier. -/
def scheduleNextAction (r : BRURetry U D K) : Exec Assertion (BRURetry U D K) := do
  assertThat (r.timer = none) .alreadyScheduled
  let timer : RetryTimer U D := ⟨r.timers, r.currentDelay, r.identifier⟩
  pure { r with
    timer := some timer
    timers := r.timers + 1
    state := .delay
    log := r.log ++ [.schedule timer] }

/-- The block that `-scheduleNextAction` gives to its timer. -/
def timerCallback (identifier : Option U) (r : BRURetry U D K) :
    Exec Assertion (BRURetry U D K) := do
  assertThat (isEqual identifier r.identifier = true) .unexpectedCallback
  performAction { r with timer := none, state := .activeWaiting }

/-- `-handleResult:error:policyResponse:nextDelay:`. -/
def handleResult (success : Bool) (error : Option NSError)
    (policyResponse : BRURetryPolicyResponse) (nextDelay : D) (r : BRURetry U D K) :
    Exec Assertion (BRURetry U D K) := do
  let terminate := success || r.state == .activeCancelling || policyResponse == .stop
  let r' ←
    if terminate then
      let error :=
        if !success && r.state == .activeCancelling then
          some (cancellationErrorWithIdentifier r.identifier)
        else error
      let cleared : BRURetry U D K :=
        { r with
          state := .idle
          attempt := 0
          currentDelay := r.delay
          identifier := none
          deferred := none }
      pure (cleared.resolve r.deferred ⟨success, error⟩)
    else
      scheduleNextAction { r with currentDelay := nextDelay }
  checkInvariants r'
  pure r'

/-- The block that `continuationBlock` queues on `syncQueue`. -/
def processContinuation (attempt : Nat) (result : ContinuationResult)
    (r : BRURetry U D K) : Exec Assertion (BRURetry U D K) := do
  let final := result.success || r.state == .activeCancelling || result.status == .final
  assertThat (result.success = result.error.isNone) .inconsistentResults
  if !final then
    pure { r with
      targetQueue :=
        r.targetQueue ++ [.policy result.success result.error attempt r.currentDelay] }
  else
    handleResult result.success result.error .stop r.currentDelay r

/-- The block of `-startWithCompletionBlock:`, with the identifier it leaves
behind.  `uuid` is what `[NSUUID UUID]` answers, if it is asked. -/
def startSync (uuid : U) (completionBlock : Option K) (r : BRURetry U D K) :
    Exec Assertion (Option U × BRURetry U D K) := do
  let (identifier, r') ←
    match r.state with
    | .idle => do
      let started ← performAction
        { r with
          deferreds := Function.update r.deferreds r.runs .init
          runs := r.runs + 1
          deferred := some r.runs
          identifier := some uuid
          state := .activeWaiting }
      pure (started.identifier, started)
    | .delay => pure (none, r) -- Already running. Nothing to do.
    | .activeWaiting => pure (none, r) -- Already running. Nothing to do.
    | .activeCancelling => pure (r.identifier, { r with state := .activeWaiting })
  let r'' :=
    match completionBlock with
    | none => r'
    | some block => r'.thenOnDeferred block
  checkInvariants r''
  pure (identifier, r'')

/-- `-startWithCompletionBlock:`, with the assertion that follows its block. -/
def startWithCompletionBlock (uuid : U) (completionBlock : Option K)
    (r : BRURetry U D K) : Exec Assertion (U × BRURetry U D K) := do
  let (identifier, r') ← startSync uuid completionBlock r
  match identifier with
  | none => .error (.failed .nilIdentifier)
  | some id => pure (id, r')

/-- `-cancel:`. -/
def cancel (identifier : U) (r : BRURetry U D K) :
    Exec Assertion (Bool × BRURetry U D K) :=
  if isEqual r.identifier (some identifier) = false then
    pure (false, r)
  else do
    let (success, r') :=
      match r.state with
      | .idle => (false, r) -- Already stopped. Nothing to do.
      | .delay =>
        let cleared : BRURetry U D K :=
          { r.suspendTimer with
            timer := none
            state := .idle
            identifier := none
            attempt := 0
            currentDelay := r.delay
            deferred := none }
        let error := cancellationErrorWithIdentifier r.identifier
        (true, cleared.resolve r.deferred ⟨false, some error⟩)
      | .activeWaiting => (true, { r with state := .activeCancelling })
      | .activeCancelling => (false, r) -- Already cancelling. Nothing to do.
    checkInvariants r'
    pure (success, r')

/-! ## The machine -/

/-- The block that runs next, with what the client answers. -/
inductive Event (U D K : Type) where
  | start (uuid : U) (completionBlock : Option K)
  | cancel (identifier : U)
  /-- The action block at the head of `targetQueue`. -/
  | runAction
  /-- A call of the continuation block of `attempt`. -/
  | continuation (attempt : Nat) (result : ContinuationResult)
  /-- The policy block at the head of `targetQueue`. -/
  | runPolicy (response : BRURetryPolicyResponse) (left : D)
  /-- The block at the head of `syncQueue`. -/
  | runSync
  /-- The block of the timer that `self.timer` holds. -/
  | timerCallback
  /-- The block at the head of the `syncQueue` of a run's deferred. -/
  | runDeferred (run : Nat)
  /-- The then-block at the head of `targetQueue`. -/
  | runCompletion
deriving Repr

/-- Run one block. -/
def step (r : BRURetry U D K) : Event U D K → Exec Assertion (BRURetry U D K)
  | .start uuid completionBlock => do
    let (identifier, r') ← startSync uuid completionBlock r
    pure (r'.record (.start r.state identifier))
  | .cancel identifier => do
    let (success, r') ← cancel identifier r
    pure (r'.record (.cancel identifier success))
  | .runAction =>
    match r.targetQueue with
    | .action attempt :: rest =>
      pure { r with targetQueue := rest, continuations := r.continuations ++ [attempt] }
    | _ => .error .disabled
  | .continuation attempt result => do
    enabledIf (attempt ∈ r.continuations)
    pure { r with
      continuations := r.continuations.erase attempt
      syncQueue := r.syncQueue ++ [.continuation attempt result]
      log := r.log ++ [.continuation attempt result] }
  | .runPolicy response left =>
    match r.targetQueue with
    | .policy success error attempt nextDelay :: rest =>
      pure { r with
        targetQueue := rest
        syncQueue := r.syncQueue ++ [.policyResult success error response left]
        log := r.log ++ [.policy attempt error nextDelay response left] }
    | _ => .error .disabled
  | .runSync =>
    match r.syncQueue with
    | [] => .error .disabled
    | .continuation attempt result :: rest =>
      processContinuation attempt result { r with syncQueue := rest }
    | .policyResult success error response nextDelay :: rest =>
      handleResult success error response nextDelay { r with syncQueue := rest }
  | .timerCallback =>
    match r.timer with
    | none => .error .disabled
    | some timer => timerCallback timer.identifier r
  | .runDeferred run => do
    let (deferred, blocks) ← (r.deferreds run).runSync
    pure { r with
      deferreds := Function.update r.deferreds run deferred
      targetQueue := r.targetQueue ++ blocks.map (.completion run) }
  | .runCompletion =>
    match r.targetQueue with
    | .completion run block :: rest =>
      let result : BRURetryResult := ((r.deferreds run).value).getD ⟨false, none⟩
      pure { r with
        targetQueue := rest
        log := r.log ++ [.completion run block result.success result.error] }
    | _ => .error .disabled

end BRURetry

end BromiumCoreUtils
