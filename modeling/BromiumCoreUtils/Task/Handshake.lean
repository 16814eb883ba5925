import BromiumCoreUtils.Foundation
import BromiumCoreUtils.Lib.Machine
import BromiumCoreUtils.Lib.Pipe

/-!
# The handshake of a launch

After its `fork`, `launchWithError:` runs in two processes.  The parent lets the
child go on with one byte in `parent2child`, and concludes from `child2parent`
whether the program was started: the child writes the `errno` of a failed
`execve` there, and a successful one closes the pipe.

`SyscallOutcomes` has what the system calls answer, and `step` takes one step of
one of the two processes.  `launchContract_iff` says for which outcomes the
answer of the parent is the truth about the child.
-/

namespace BromiumCoreUtils

open Machine

/-! ## Results of system calls -/

/-- What the `write` of one byte returns. -/
inductive WriteResult where
  | one
  | zero
  | error (errno : Int)
deriving DecidableEq, Repr

/-- What the `read` of an `int` returns. -/
inductive ReadResult where
  | zero
  | error (errno : Int)
  | bytes (n : Nat) (value : Int)
deriving DecidableEq, Repr

/-- A failure of a `read` that is not tried again. -/
structure ReadFailure where
  errno : Int
  final : errno ≠ EINTR ∧ errno ≠ EAGAIN
deriving DecidableEq, Repr

/-- How the system calls of a launch turn out.  A call that is `none` succeeds.
The `read` of the parent may be interrupted any number of times before that. -/
structure SyscallOutcomes where
  write : WriteResult
  readError : Option ReadFailure
  fcntlError : Option Int
  execveError : Option Int
deriving DecidableEq, Repr

/-! ## What the parent concludes -/

/-- The variables of `launchWithError:` that its `doFork` block sets, and the
property `running`. -/
structure LaunchVariables where
  success : Bool := false
  error_errno : Int := 0
  error_desc : Option String := none
  running : Bool := false
deriving DecidableEq, Repr

/-- A launch that has failed. -/
def LaunchVariables.fail (error_errno : Int) (error_desc : String) (v : LaunchVariables) :
    LaunchVariables :=
  { v with success := false, error_errno := error_errno, error_desc := some error_desc }

/-- The checks of `suc_write`, with `start_failure`. -/
def checkWrite (suc_write : WriteResult) (v : LaunchVariables) : LaunchVariables × Bool :=
  match suc_write with
  | .error errno => (v.fail errno "parent2child write() failed", true)
  | .zero => (v.fail EINVAL "EOF on parent2child write()", true)
  | .one => (v, false)

/-- The body of the loop around `read`, which goes on when there is no result. -/
def checkRead (n : ReadResult) (v : LaunchVariables) : Option LaunchVariables :=
  match n with
  | .zero => some { v with running := true, success := true }
  | .error errno =>
    if errno = EINTR ∨ errno = EAGAIN then none
    else some (v.fail errno "internal error, please report (read failed)")
  | .bytes n value =>
    if n = 4 then some (v.fail value "exec failed")
    else some (v.fail EDOM "exec failed, couldn't figure why")

/-- The return value and the error of `launchWithError:`.  The entries
`launch-path` and `args` of the error, which copy two properties, are left out. -/
def launchAnswer (v : LaunchVariables) : Bool × Option NSError :=
  if v.success then (true, none)
  else (false, v.error_desc.map fun error_desc =>
    { domain := NSPOSIXErrorDomain, code := v.error_errno, userInfo := [("reason", error_desc)] })

/-! ## The two processes -/

/-- The parent and the child. -/
inductive Process where
  | parent
  | child
deriving DecidableEq, Repr

/-- What the parent does next. -/
inductive ParentPlace where
  | closeParent2childRead
  | closeChild2parentWrite
  | writeParent2child
  | closeParent2childWrite (suc_write : WriteResult)
  | readChild2parent
  | closeChild2parentRead
  | returned
deriving DecidableEq, Repr

/-- How the child ends without the program. -/
inductive Ending where
  | abort
  | exitEINVAL
deriving DecidableEq, Repr

/-- What the child does next. -/
inductive ChildPlace where
  | closeChild2parentRead
  | closeParent2childWrite
  | fcntl
  | readParent2child
  | closeParent2childRead
  | execve
  | writeErrno (errno : Int) (ending : Ending)
  | closeChild2parentWrite (ending : Ending)
  | leave (ending : Ending)
  /-- The requested program runs. -/
  | executing
  | dead
deriving DecidableEq, Repr

/-- The two processes and the pipes between them.  `execve` is the result of the
call, an `errno` or success, once it was made. -/
structure Handshake where
  parent : ParentPlace
  child : ChildPlace
  parent2child : Pipe Process Unit
  child2parent : Pipe Process Int
  launch : LaunchVariables
  execve : Option (Except Int Unit)
deriving DecidableEq

namespace Handshake

/-- Right after the `fork`, both processes hold all ends of both pipes. -/
def initial : Handshake where
  parent := .closeParent2childRead
  child := .closeChild2parentRead
  parent2child := { queue := [], readers := {.parent, .child}, writers := {.parent, .child} }
  child2parent := { queue := [], readers := {.parent, .child}, writers := {.parent, .child} }
  launch := {}
  execve := none

/-- A step of one of the processes, or a `read` of the parent that gives `EINTR` or
`EAGAIN`. -/
inductive Event where
  | parent
  | again (errno : Int)
  | child
deriving DecidableEq, Repr

/-- The result of the parent's last `read`, unless it has to wait. -/
def readResult (o : SyscallOutcomes) (s : Handshake) : Option (ReadResult × Pipe Process Int) :=
  match o.readError with
  | some failure => some (.error failure.errno, s.child2parent)
  | none =>
    match s.child2parent.reading with
    | .message errno => some (.bytes 4 errno, s.child2parent.afterReading)
    | .endOfFile => some (.zero, s.child2parent)
    | .blocked => none

/-- A turn of the loop around the parent's `read`. -/
def loopTurn (result : ReadResult × Pipe Process Int) (s : Handshake) : Handshake :=
  match checkRead result.1 s.launch with
  | none => { s with child2parent := result.2 }
  | some v =>
    { s with parent := .closeChild2parentRead, child2parent := result.2, launch := v }

/-- The parent branch of `doFork`. -/
def stepParent (o : SyscallOutcomes) (s : Handshake) : Exec Assertion Handshake :=
  match s.parent with
  | .closeParent2childRead =>
    pure { s with
      parent := .closeChild2parentWrite
      parent2child := s.parent2child.closeReader .parent }
  | .closeChild2parentWrite =>
    pure { s with
      parent := .writeParent2child
      child2parent := s.child2parent.closeWriter .parent }
  | .writeParent2child =>
    pure { s with
      parent := .closeParent2childWrite o.write
      parent2child :=
        if o.write = .one then s.parent2child.put () else s.parent2child }
  | .closeParent2childWrite suc_write =>
    let (v, start_failure) := checkWrite suc_write s.launch
    pure { s with
      parent := if start_failure then .closeChild2parentRead else .readChild2parent
      parent2child := s.parent2child.closeWriter .parent
      launch := v }
  | .readChild2parent =>
    match s.readResult o with
    | some result => pure (s.loopTurn result)
    | none => .error .disabled
  | .closeChild2parentRead =>
    pure { s with
      parent := .returned
      child2parent := s.child2parent.closeReader .parent }
  | .returned => .error .disabled

/-- The child branch of `doFork`, with the system calls that touch the pipes.  The
child does not look at the result of its `read`.  A `write` to a broken pipe ends
it, be it by `SIGPIPE` or by the assertion after the call. -/
def stepChild (o : SyscallOutcomes) (s : Handshake) : Exec Assertion Handshake :=
  match s.child with
  | .closeChild2parentRead =>
    pure { s with
      child := .closeParent2childWrite
      child2parent := s.child2parent.closeReader .child }
  | .closeParent2childWrite =>
    pure { s with
      child := .fcntl
      parent2child := s.parent2child.closeWriter .child }
  | .fcntl =>
    match o.fcntlError with
    | some errno => pure { s with child := .writeErrno errno .abort }
    | none => pure { s with child := .readParent2child }
  | .readParent2child =>
    match s.parent2child.reading with
    | .message _ =>
      pure { s with
        child := .closeParent2childRead
        parent2child := s.parent2child.afterReading }
    | .endOfFile => pure { s with child := .closeParent2childRead }
    | .blocked => .error .disabled
  | .closeParent2childRead =>
    pure { s with
      child := .execve
      parent2child := s.parent2child.closeReader .child }
  | .execve =>
    match o.execveError with
    | some errno =>
      pure { s with child := .writeErrno errno .exitEINVAL, execve := some (.error errno) }
    | none =>
      -- the descriptor of `child2parent` is closed on exec
      pure { s with
        child := .executing
        child2parent := s.child2parent.closeWriter .child
        execve := some (.ok ()) }
  | .writeErrno errno ending =>
    match s.child2parent.write errno with
    | some child2parent =>
      pure { s with child := .closeChild2parentWrite ending, child2parent := child2parent }
    | none =>
      pure { s with
        child := .dead
        parent2child := s.parent2child.closeBoth .child
        child2parent := s.child2parent.closeBoth .child }
  | .closeChild2parentWrite ending =>
    pure { s with
      child := .leave ending
      child2parent := s.child2parent.closeWriter .child }
  | .leave _ =>
    pure { s with
      child := .dead
      parent2child := s.parent2child.closeBoth .child
      child2parent := s.child2parent.closeBoth .child }
  | .executing => .error .disabled
  | .dead => .error .disabled

def step (o : SyscallOutcomes) (s : Handshake) : Event → Exec Assertion Handshake
  | .parent => s.stepParent o
  | .again errno => do
    enabledIf (s.parent = .readChild2parent ∧ (errno = EINTR ∨ errno = EAGAIN))
    pure (s.loopTurn (.error errno, s.child2parent))
  | .child => s.stepChild o

/-! ## What the launch is to tell -/

/-- Both processes are past the handshake. -/
def Finished (s : Handshake) : Prop :=
  s.parent = .returned ∧ (s.child = .executing ∨ s.child = .dead)

/-- The answer of the parent is the truth about the child. -/
structure LaunchContract (s : Handshake) : Prop where
  launched : (launchAnswer s.launch).1 = true ↔ s.execve = some (.ok ())
  reason : ∀ errno, s.execve = some (.error errno) →
    ∃ error, (launchAnswer s.launch).2 = some error ∧ error.code = errno

end Handshake

namespace SyscallOutcomes

/-- The error that the parent meets on its own. -/
def parentError (o : SyscallOutcomes) : Option Int :=
  match o.write with
  | .error errno => some errno
  | .zero => some EINVAL
  | .one => o.readError.map ReadFailure.errno

/-- The error that the child meets. -/
def childError (o : SyscallOutcomes) : Option Int :=
  o.fcntlError.or o.execveError

/-- Where the parent fails and the child does not, the child cannot know, so the
parent has to be right by chance. -/
def Agree (o : SyscallOutcomes) : Prop :=
  ∀ errno, o.parentError = some errno → o.fcntlError = none → o.execveError = some errno

end SyscallOutcomes

end BromiumCoreUtils
