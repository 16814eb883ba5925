/-!
# The parts of Foundation and of `BRUAsserts` that the models share

`NSError` is modelled with the three properties that the code fills in.
`NSTimeInterval` stays abstract: the code copies delays, compares two of them
with `BRUDoubleEquals`, and relies on the value that ARC gives a field nobody
sets.  Identifiers stay abstract as well, so a model takes their type as a
parameter.

`Assertion` names every `BRUAssert` that a modelled function can fail.
`BRUAssert` is fatal in every build, so a failed assertion ends the run.
-/

namespace BromiumCoreUtils

/-- `NSError`: the domain, the code, and the entries of `userInfo`. -/
structure NSError where
  domain : String
  code : Int
  userInfo : List (String × String)
deriving DecidableEq, Repr

/-- `BRUErrorReasonKey`. -/
def BRUErrorReasonKey : String := "reason"

def NSPOSIXErrorDomain : String := "NSPOSIXErrorDomain"

/-! The values of `errno` that the code names. -/

def EINTR : Int := 4
def EINVAL : Int := 22
def EDOM : Int := 33
def EAGAIN : Int := 35
def ENOTSUP : Int := 45

/-- `NSTimeInterval` as an abstract value: the one a zero-initialised field
holds, and `BRUDoubleEquals` at `DBL_EPSILON`. -/
class NSTimeInterval (D : Type) where
  zero : D
  doubleEquals : D → D → Bool

/-- Whole numbers of ticks, the delays of the concrete runs. -/
instance : NSTimeInterval Nat where
  zero := 0
  doubleEquals x y := x == y

/-- `-[NSObject isEqual:]` between two references that may be `nil`.  A
message to `nil` answers `NO`, and no object is equal to `nil`. -/
def isEqual {U : Type} [DecidableEq U] : Option U → Option U → Bool
  | some a, some b => a == b
  | _, _ => false

theorem isEqual_iff {U : Type} [DecidableEq U] {a b : Option U} :
    isEqual a b = true ↔ a = b ∧ a.isSome := by
  cases a <;> cases b <;> simp [isEqual]

/-- The assertions of the modelled files. -/
inductive Assertion where
  /-- `Attempt to resolve a %@ promise`. -/
  | resolveNotPending
  /-- `Invalid attempt to schedule the action when already scheduled.` -/
  | alreadyScheduled
  /-- `Unexpected callback (got '%@', expected '%@') from BRUTimer`. -/
  | unexpectedCallback
  /-- `Perform action block called when not running (state=%ld).` -/
  | performActionNotRunning
  /-- `Continuation block called with inconsistent results (...)`. -/
  | inconsistentResults
  /-- `Invalid state (state=%ld, ...)`, from `checkInvariants`. -/
  | invalidState
  /-- `Unexpected nil identifer following call to start.` -/
  | nilIdentifier
  /-- `consistency problems: timer fire gen: %lu, current timer gen: %lu`. -/
  | generationAhead
  /-- `already running`. -/
  | alreadyRunning
  /-- `Rate limiter completion block should be non-nil.`  It is the property that
  has to be `nil`. -/
  | completionBlockNotNil
  /-- `Rate limiter completion block cannot be called more than once.` -/
  | completionBlockDidRun
  /-- `assert(value)` or `assert(oldValue)`, in a box. -/
  | noValue
  /-- `assert(thing)`, in `take`. -/
  | noThing
  /-- `wrong type: %@, supported: NSPipe and NSFileHandle`. -/
  | wrongType
  /-- `task wasn't launched yet`. -/
  | notLaunchedYet
  /-- `already waited for task`. -/
  | alreadyWaited
  /-- `child exited dispatch_source nil`. -/
  | childExitedSrcNil
  /-- `received SIGCHLD without a running task`. -/
  | noRunningTask
  /-- `waitpid() returned with pid that has neither exited, nor signalled: 0x%x`. -/
  | neitherExitedNorSignalled
  /-- `building monitors whilst already built`. -/
  | monitorsAlreadyBuilt
  /-- `destroying monitors when already destroyed`. -/
  | monitorsAlreadyDestroyed
  /-- `BRUResourceCleanup not active anymore`. -/
  | cleanupNotActive
  /-- `programmer error: value returned from modifyBlock nil`. -/
  | modifyBlockNil
  /-- `NSCParameterAssert(q)` or `NSCParameterAssert(label)`. -/
  | invalidParameter
  /-- `queue is nil`. -/
  | queueIsNil
  /-- `running on wrong queue`. -/
  | wrongQueue
deriving DecidableEq, Repr

end BromiumCoreUtils
