import BromiumCoreUtils.Task.Descriptors
import BromiumCoreUtils.Task.Handshake

/-!
# The parent of a launch

`launchWithError:` as its caller sees it: the `doFork` block up to the end of its
parent branch, and what follows the block.  `LaunchOutcomes` has what the system
calls answer, and `calls` records what the parent did about descriptors and
children.

`launchWithError` gives no state while the `read` loop has no result.
`launch_returns` lists the ways in which it returns.
-/

namespace BromiumCoreUtils

open Machine

/-! ## What the system answers -/

/-- What the two calls of `pipe` give.  A pipe that was created has new
descriptors. -/
inductive PipeResults where
  | child2parentFails (errno : Int)
  | parent2childFails (child2parentRead child2parentWrite : Int)
      (distinct : child2parentRead ≠ child2parentWrite) (errno : Int)
  | created (pipes : HandshakePipes)

/-- What `fork` gives in the parent. -/
inductive ForkResult where
  | error (errno : Int)
  | pid (processIdentifier : Int)
deriving DecidableEq, Repr

/-- How the calls of one launch turn out.  The results of `read` come one after the
other. -/
structure LaunchOutcomes where
  pipes : PipeResults
  fork : ForkResult
  /-- `dispatch_source_create` gives a source. -/
  sourceCreated : Bool
  write : WriteResult
  reads : List ReadResult

/-! ## What the parent does -/

/-- What the parent calls. -/
inductive ParentCall where
  | pipe (readEnd writeEnd : Int)
  | fork (processIdentifier : Int)
  | close (fd : Int)
  /-- `-[NSFileHandle closeFile]`. -/
  | closeFile (fd : Int)
  | waitpid (processIdentifier : Int)
deriving DecidableEq, Repr

/-- The event handler of a dispatch source. -/
inductive EventHandler where
  /-- The block that calls `waitpid`. -/
  | waitpid
  | empty
deriving DecidableEq, Repr

/-- The dispatch source for the exit of a child. -/
structure ExitSource where
  processIdentifier : Int
  eventHandler : Option EventHandler
  resumed : Bool
deriving DecidableEq, Repr

/-- The objects that the client gave as the standard files. -/
structure StandardObjects where
  standardInput : Option StandardObject
  standardOutput : Option StandardObject
  standardError : Option StandardObject
deriving DecidableEq, Repr

/-- A launch in the parent: the variables of the method, two properties, and what was
called so far. -/
structure ParentLaunch where
  launch : LaunchVariables := {}
  processIdentifier : Option Int := none
  childExitedSrc : Option ExitSource := none
  calls : List ParentCall := []
deriving DecidableEq, Repr

namespace ParentLaunch

def call (c : ParentCall) (s : ParentLaunch) : ParentLaunch :=
  { s with calls := s.calls ++ [c] }

def close (fd : Int) (s : ParentLaunch) : ParentLaunch :=
  s.call (.close fd)

def fail (error_errno : Int) (error_desc : String) (s : ParentLaunch) : ParentLaunch :=
  { s with launch := s.launch.fail error_errno error_desc }

/-- The turns of the loop around `read`.  Without a result it has not returned. -/
def readLoop (launch : LaunchVariables) : List ReadResult → Exec Assertion LaunchVariables
  | [] => .error .disabled
  | n :: reads =>
    match checkRead n launch with
    | some launch' => pure launch'
    | none => readLoop launch reads

/-- `while (!start_failure)`. -/
def whileStarting (start_failure : Bool) (launch : LaunchVariables) (reads : List ReadResult) :
    Exec Assertion LaunchVariables :=
  if start_failure then pure launch else readLoop launch reads

/-- `closeFile` on the file handle of one of the standard files.  `handle` has its
descriptor and `shouldClose`. -/
def closeStandard (handle : Option Int × Bool) (s : ParentLaunch) : ParentLaunch :=
  let fd := handle.1.getD (-1)
  if handle.2 && decide (2 < fd) then s.call (.closeFile fd) else s

/-- Only a launch that does not fail closes what the child uses. -/
def closeAfterLaunch (handle_stdin handle_stdout handle_stderr : Option Int × Bool)
    (s : ParentLaunch) : ParentLaunch :=
  if s.launch.success then
    ((s.closeStandard handle_stdin).closeStandard handle_stdout).closeStandard handle_stderr
  else s

/-- The parent branch of `doFork`. -/
def parentBranch (handle_stdin handle_stdout handle_stderr : Option Int × Bool)
    (pipes : HandshakePipes) (pid : Int) (o : LaunchOutcomes) (s : ParentLaunch) :
    Exec Assertion ParentLaunch := do
  let s := { s.call (.fork pid) with processIdentifier := some pid }
  let s := s.close pipes.parent2childRead
  let s := s.close pipes.child2parentWrite
  let s := { s with
    childExitedSrc := if o.sourceCreated then some ⟨pid, none, false⟩ else none }
  let s := s.close pipes.parent2childWrite
  let (launch, start_failure) := checkWrite o.write s.launch
  let launch ← whileStarting start_failure launch o.reads
  let s := { s with launch := launch }
  let s := s.close pipes.child2parentRead
  pure (s.closeAfterLaunch handle_stdin handle_stdout handle_stderr)

/-- `doFork`, in the parent. -/
def doFork (objects : StandardObjects) (o : LaunchOutcomes) : Exec Assertion ParentLaunch :=
  match o.pipes with
  | .child2parentFails errno =>
    pure (fail errno "child2parent: pipe() failed" {})
  | .parent2childFails child2parentRead child2parentWrite _ errno =>
    let s := call (.pipe child2parentRead child2parentWrite) {}
    let s := s.fail errno "parent2child: pipe() failed"
    pure ((s.close child2parentRead).close child2parentWrite)
  | .created pipes => do
    let s := call (.pipe pipes.child2parentRead pipes.child2parentWrite) {}
    let s := s.call (.pipe pipes.parent2childRead pipes.parent2childWrite)
    let handle_stdin ← extractFileHandleWithObject objects.standardInput false
    let handle_stdout ← extractFileHandleWithObject objects.standardOutput true
    let handle_stderr ← extractFileHandleWithObject objects.standardError true
    match o.fork with
    | .pid pid => s.parentBranch handle_stdin handle_stdout handle_stderr pipes pid o
    | .error errno => pure (s.fail errno "fork() failed")

/-- Give the source its handler, and resume it. -/
def setEventHandler (eventHandler : EventHandler) (src : ExitSource) : ExitSource :=
  { src with eventHandler := some eventHandler, resumed := true }

/-- What follows `doFork`. -/
def installHandler (s : ParentLaunch) : Exec Assertion ParentLaunch :=
  if s.launch.success then do
    assertThat (s.childExitedSrc.isSome = true) .childExitedSrcNil
    pure { s with childExitedSrc := s.childExitedSrc.map (setEventHandler .waitpid) }
  else
    pure { s with childExitedSrc := s.childExitedSrc.map (setEventHandler .empty) }

/-- `-launchWithError:`, of a task that was not launched before. -/
def launchWithError (objects : StandardObjects) (o : LaunchOutcomes) :
    Exec Assertion ParentLaunch := do
  let s ← doFork objects o
  installHandler s

/-- What `launchWithError:` returns. -/
def answer (s : ParentLaunch) : Bool :=
  (launchAnswer s.launch).1

end ParentLaunch

/-! ## How a launch returns -/

/-- The descriptor that the child gets of a pipe. -/
def childSideEnd (obj : Option StandardObject) (writeMode : Bool) : Option Int :=
  match obj with
  | some (.pipe fileHandleForReading fileHandleForWriting) =>
    some (if writeMode then fileHandleForWriting else fileHandleForReading)
  | _ => none

/-- How the parent closes the child's end of one standard file. -/
def closedStandard (obj : Option StandardObject) (writeMode : Bool) : List ParentCall :=
  match childSideEnd obj writeMode with
  | some fd => if 2 < fd then [.closeFile fd] else []
  | none => []

/-- What the parent closes after a launch that succeeded. -/
def StandardObjects.closed (objects : StandardObjects) : List ParentCall :=
  closedStandard objects.standardInput false ++ closedStandard objects.standardOutput true ++
    closedStandard objects.standardError true

/-- The loop goes on after the result. -/
def ReadResult.isTransient : ReadResult → Bool
  | .error errno => errno = EINTR || errno = EAGAIN
  | _ => false

namespace LaunchOutcomes

/-- The result that ends the loop around `read`. -/
def lastRead (o : LaunchOutcomes) : Option ReadResult :=
  o.reads.find? fun n => !n.isTransient

/-- The byte was written, and the child closed its pipe without a message. -/
def Started (o : LaunchOutcomes) : Prop :=
  o.write = .one ∧ o.lastRead = some .zero

instance (o : LaunchOutcomes) : Decidable o.Started :=
  inferInstanceAs (Decidable (_ ∧ _))

end LaunchOutcomes

theorem closeStandard_of_extract {obj : Option StandardObject} {writeMode : Bool}
    {handle : Option Int × Bool} (h : extractFileHandleWithObject obj writeMode = .ok handle)
    (s : ParentLaunch) : s.closeStandard handle =
      { s with calls := s.calls ++ closedStandard obj writeMode } := by
  cases obj with
  | none =>
    obtain rfl := pure_eq_ok.mp h
    simp [ParentLaunch.closeStandard, closedStandard, childSideEnd]
  | some obj =>
    cases obj with
    | pipe fileHandleForReading fileHandleForWriting =>
      cases writeMode <;> obtain rfl := pure_eq_ok.mp h <;>
        simp [ParentLaunch.closeStandard, closedStandard, childSideEnd, ParentLaunch.call] <;>
        split <;> simp
    | fileHandle fileDescriptor =>
      obtain rfl := pure_eq_ok.mp h
      simp [ParentLaunch.closeStandard, closedStandard, childSideEnd]
    | other => cases h

/-- A result that does not end the loop is transient. -/
theorem isTransient_of_checkRead {n : ReadResult} {launch : LaunchVariables}
    (h : checkRead n launch = none) : n.isTransient = true := by
  cases n with
  | zero => cases h
  | error errno =>
    simp only [checkRead] at h
    split at h
    · rename_i htransient
      simpa [ReadResult.isTransient] using htransient
    · cases h
  | bytes n value =>
    simp only [checkRead] at h
    split at h <;> cases h

/-- Only the end of the file makes the launch succeed. -/
theorem success_of_checkRead {n : ReadResult} {launch launch' : LaunchVariables}
    (h : checkRead n launch = some launch') :
    n.isTransient = false ∧ (launch'.success = true ↔ n = .zero) := by
  cases n with
  | zero =>
    obtain rfl := Option.some.inj h
    simp [ReadResult.isTransient]
  | error errno =>
    simp only [checkRead] at h
    split at h
    · cases h
    · rename_i hfinal
      obtain rfl := Option.some.inj h
      exact ⟨by simpa [ReadResult.isTransient] using hfinal, by simp [LaunchVariables.fail]⟩
  | bytes n value =>
    simp only [checkRead] at h
    split at h <;> obtain rfl := Option.some.inj h <;>
      simp [ReadResult.isTransient, LaunchVariables.fail]

namespace ParentLaunch

/-- The loop ends with the first result that is not transient. -/
theorem readLoop_ok {reads : List ReadResult} {launch launch' : LaunchVariables}
    (h : readLoop launch reads = .ok launch') :
    launch'.success = true ↔ (reads.find? fun n => !n.isTransient) = some .zero := by
  induction reads with
  | nil => cases h
  | cons n reads ih =>
    rw [readLoop] at h
    cases hcheck : checkRead n launch with
    | none =>
      rw [hcheck] at h
      rw [List.find?_cons_of_neg (by rw [isTransient_of_checkRead hcheck]; decide)]
      exact ih h
    | some launch₁ =>
      obtain ⟨hfinal, hiff⟩ := success_of_checkRead hcheck
      rw [hcheck] at h
      obtain rfl := pure_eq_ok.mp h
      rw [List.find?_cons_of_pos (by rw [hfinal]; rfl), hiff, Option.some.injEq]

/-- The ways in which a launch returns. -/
inductive Returns (objects : StandardObjects) (o : LaunchOutcomes) : ParentLaunch → Prop where
  | child2parentFails {s : ParentLaunch} {errno : Int}
      (hpipes : o.pipes = .child2parentFails errno) (hpid : s.processIdentifier = none)
      (hcalls : s.calls = [])
      (hsource : s.childExitedSrc = none) (hanswer : s.answer = false) : Returns objects o s
  | parent2childFails {s : ParentLaunch} {child2parentRead child2parentWrite errno : Int}
      {distinct : child2parentRead ≠ child2parentWrite}
      (hpipes : o.pipes =
        .parent2childFails child2parentRead child2parentWrite distinct errno)
      (hpid : s.processIdentifier = none)
      (hcalls : s.calls = [.pipe child2parentRead child2parentWrite,
        .close child2parentRead, .close child2parentWrite])
      (hsource : s.childExitedSrc = none) (hanswer : s.answer = false) : Returns objects o s
  | forkFails {s : ParentLaunch} {pipes : HandshakePipes} {errno : Int}
      (hpipes : o.pipes = .created pipes) (hfork : o.fork = .error errno)
      (hpid : s.processIdentifier = none)
      (hcalls : s.calls = [.pipe pipes.child2parentRead pipes.child2parentWrite,
        .pipe pipes.parent2childRead pipes.parent2childWrite])
      (hsource : s.childExitedSrc = none) (hanswer : s.answer = false) : Returns objects o s
  | forked {s : ParentLaunch} {pipes : HandshakePipes} {pid : Int}
      (hpipes : o.pipes = .created pipes) (hfork : o.fork = .pid pid)
      (hpid : s.processIdentifier = some pid)
      (hcalls : s.calls = [.pipe pipes.child2parentRead pipes.child2parentWrite,
          .pipe pipes.parent2childRead pipes.parent2childWrite, .fork pid,
          .close pipes.parent2childRead, .close pipes.child2parentWrite,
          .close pipes.parent2childWrite, .close pipes.child2parentRead] ++
        if s.answer then objects.closed else [])
      (hsource : s.childExitedSrc = if o.sourceCreated then
        some ⟨pid, some (if s.answer then .waitpid else .empty), true⟩ else none)
      (hcreated : s.answer = true → o.sourceCreated = true)
      (hanswer : s.answer = true ↔ o.Started) : Returns objects o s

theorem answer_eq (s : ParentLaunch) : s.answer = s.launch.success := by
  unfold answer launchAnswer
  split <;> simp_all

/-- The checks of `suc_write` and the loop succeed when the program was started. -/
theorem success_iff_started {o : LaunchOutcomes} {launch launch' : LaunchVariables}
    (h : whileStarting (checkWrite o.write launch).2 (checkWrite o.write launch).1 o.reads =
      .ok launch') : launch'.success = true ↔ o.Started := by
  unfold LaunchOutcomes.Started LaunchOutcomes.lastRead
  cases hwrite : o.write with
  | one =>
    rw [hwrite] at h
    simpa using readLoop_ok h
  | zero =>
    rw [hwrite] at h
    obtain rfl := pure_eq_ok.mp h
    simp [checkWrite, LaunchVariables.fail]
  | error errno =>
    rw [hwrite] at h
    obtain rfl := pure_eq_ok.mp h
    simp [checkWrite, LaunchVariables.fail]

theorem closeAfterLaunch_eq {objects : StandardObjects}
    {handle_stdin handle_stdout handle_stderr : Option Int × Bool}
    (hstdin : extractFileHandleWithObject objects.standardInput false = .ok handle_stdin)
    (hstdout : extractFileHandleWithObject objects.standardOutput true = .ok handle_stdout)
    (hstderr : extractFileHandleWithObject objects.standardError true = .ok handle_stderr)
    (s : ParentLaunch) : s.closeAfterLaunch handle_stdin handle_stdout handle_stderr =
      { s with calls := s.calls ++ if s.launch.success then objects.closed else [] } := by
  unfold closeAfterLaunch
  split
  · rw [closeStandard_of_extract hstdin, closeStandard_of_extract hstdout,
      closeStandard_of_extract hstderr, StandardObjects.closed, List.append_assoc,
      List.append_assoc, List.append_assoc]
  · rw [List.append_nil]

theorem parentBranch_ok {objects : StandardObjects} {o : LaunchOutcomes}
    {handle_stdin handle_stdout handle_stderr : Option Int × Bool} {pipes : HandshakePipes}
    {pid : Int} {s t : ParentLaunch}
    (hstdin : extractFileHandleWithObject objects.standardInput false = .ok handle_stdin)
    (hstdout : extractFileHandleWithObject objects.standardOutput true = .ok handle_stdout)
    (hstderr : extractFileHandleWithObject objects.standardError true = .ok handle_stderr)
    (h : parentBranch handle_stdin handle_stdout handle_stderr pipes pid o s = .ok t) :
    (t.launch.success = true ↔ o.Started) ∧
      t.calls = s.calls ++ [.fork pid, .close pipes.parent2childRead,
          .close pipes.child2parentWrite, .close pipes.parent2childWrite,
          .close pipes.child2parentRead] ++
        (if t.launch.success then objects.closed else []) ∧
      t.childExitedSrc = (if o.sourceCreated then some ⟨pid, none, false⟩ else none) ∧
      t.processIdentifier = some pid := by
  simp only [parentBranch, bind_eq_ok, pure_eq_ok] at h
  obtain ⟨launch, hread, rfl⟩ := h
  rw [closeAfterLaunch_eq hstdin hstdout hstderr]
  refine ⟨success_iff_started hread, ?_, rfl, rfl⟩
  simp [close, call]

theorem installHandler_ok {s t : ParentLaunch} (h : installHandler s = .ok t) :
    t.launch = s.launch ∧ t.calls = s.calls ∧ t.processIdentifier = s.processIdentifier ∧
      t.childExitedSrc = s.childExitedSrc.map
        (setEventHandler (if s.launch.success then .waitpid else .empty)) ∧
      (s.launch.success = true → s.childExitedSrc.isSome = true) := by
  unfold installHandler at h
  split at h <;> rename_i hsuccess
  · simp only [bind_eq_ok, assertThat_eq_ok, pure_eq_ok] at h
    obtain ⟨-, hsome, rfl⟩ := h
    exact ⟨rfl, rfl, rfl, by rw [if_pos hsuccess], fun _ => hsome⟩
  · obtain rfl := pure_eq_ok.mp h
    exact ⟨rfl, rfl, rfl, by rw [if_neg hsuccess], fun hs => absurd hs hsuccess⟩

/-- The list of ways is complete. -/
theorem launch_returns {objects : StandardObjects} {o : LaunchOutcomes} {t : ParentLaunch}
    (h : launchWithError objects o = .ok t) : Returns objects o t := by
  simp only [launchWithError, bind_eq_ok] at h
  obtain ⟨s, hfork, hinstall⟩ := h
  obtain ⟨hlaunch, hcalls, hpid, hsource, hsome⟩ := installHandler_ok hinstall
  have hanswer : t.answer = s.launch.success := by rw [answer_eq, hlaunch]
  cases hpipes : o.pipes with
  | child2parentFails errno =>
    rw [doFork, hpipes] at hfork
    obtain rfl := pure_eq_ok.mp hfork
    exact .child2parentFails hpipes hpid hcalls hsource hanswer
  | parent2childFails child2parentRead child2parentWrite distinct errno =>
    rw [doFork, hpipes] at hfork
    obtain rfl := pure_eq_ok.mp hfork
    exact .parent2childFails hpipes hpid hcalls hsource hanswer
  | created pipes =>
    rw [doFork, hpipes] at hfork
    simp only [bind_eq_ok] at hfork
    obtain ⟨handle_stdin, hstdin, handle_stdout, hstdout, handle_stderr, hstderr, hfork⟩ := hfork
    cases hresult : o.fork with
    | error errno =>
      rw [hresult] at hfork
      obtain rfl := pure_eq_ok.mp hfork
      exact .forkFails hpipes hresult hpid hcalls hsource hanswer
    | pid pid =>
      rw [hresult] at hfork
      obtain ⟨hstarted, hbranch, hcreated, hforked⟩ :=
        parentBranch_ok hstdin hstdout hstderr hfork
      refine .forked hpipes hresult (hpid.trans hforked) ?_ ?_ ?_ ?_
      · rw [hcalls, hbranch, hanswer]
        rfl
      · rw [hsource, hcreated, hanswer]
        cases o.sourceCreated <;> rfl
      · intro hyes
        rw [hanswer] at hyes
        have hsource := hsome hyes
        rw [hcreated] at hsource
        cases hc : o.sourceCreated with
        | true => rfl
        | false =>
          rw [hc] at hsource
          cases hsource
      · rw [hanswer]
        exact hstarted

end ParentLaunch

end BromiumCoreUtils
