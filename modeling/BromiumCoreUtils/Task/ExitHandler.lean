import BromiumCoreUtils.Foundation
import BromiumCoreUtils.Lib.Machine

/-!
# The end of a task

After a launch that succeeded, a dispatch source waits for the child to exit.  Its
event handler calls `waitpid` until it has the status, and then writes what the
properties of the task tell about it, one after the other.  Each of these writes is
a step, because other threads read the properties in between.
-/

namespace BromiumCoreUtils

open Machine

/-! ## The status of a child -/

inductive NSTaskTerminationReason where
  | exit
  | uncaughtSignal
deriving DecidableEq, Repr

/-- The macros of `sys/wait.h`.  The lower seven bits are a signal, 0 after an exit
and 127 while the child is stopped. -/
def WSTATUS (wp_status : Nat) : Nat := wp_status % 128

def WIFSIGNALED (wp_status : Nat) : Bool :=
  WSTATUS wp_status ≠ 127 && WSTATUS wp_status ≠ 0

def WTERMSIG (wp_status : Nat) : Nat := WSTATUS wp_status

def WIFEXITED (wp_status : Nat) : Bool := WSTATUS wp_status = 0

def WEXITSTATUS (wp_status : Nat) : Nat := wp_status / 256 % 256

/-- What the handler makes of the status. -/
def decodeStatus (wp_status : Nat) : Exec Assertion (NSTaskTerminationReason × Nat) :=
  if WIFSIGNALED wp_status then pure (.uncaughtSignal, WTERMSIG wp_status)
  else if WIFEXITED wp_status then pure (.exit, WEXITSTATUS wp_status)
  else .error (.failed .neitherExitedNorSignalled)

/-! ## The handler -/

/-- What a `waitpid` with `WNOHANG` gives. -/
inductive WaitpidResult where
  | error (errno : Int)
  | zero
  | pid (wp_status : Nat)
deriving DecidableEq, Repr

/-- `waitpid` failed for good. -/
def WaitpidResult.Fails : WaitpidResult → Prop
  | .error errno => errno ≠ EINTR
  | _ => False

/-- What the event handler does next. -/
inductive HandlerPlace where
  | notFired
  | waitpid
  | cancelSource (wp_status : Nat)
  | storeReason (wp_status : Nat)
  | storeStatus (terminationStatus : Nat)
  | clearRunning
  | signalSemaphore
  | callTerminationHandler
  | postNotification
  | finished
  /-- `waitpid` failed, and the handler has returned. -/
  | gaveUp
deriving DecidableEq, Repr

/-- A launched task and the handler of its exit. -/
structure LaunchedTask where
  place : HandlerPlace
  wasLaunched : Bool
  running : Bool
  processIdentifier : Int
  terminationReason : Option NSTaskTerminationReason
  terminationStatus : Nat
  waitOnSemaphore : Nat
  /-- The client has set a `terminationHandler`. -/
  hasTerminationHandler : Bool
  terminationHandlerCalls : Nat
  notifications : Nat
  sourceCancelled : Bool
  /-- `waitpid` has given the child back to the kernel. -/
  reaped : Bool
deriving DecidableEq, Repr

namespace LaunchedTask

/-- The state in which `launchWithError:` answers `YES`. -/
def initial (processIdentifier : Int) (hasTerminationHandler : Bool) : LaunchedTask where
  place := .notFired
  wasLaunched := true
  running := true
  processIdentifier := processIdentifier
  terminationReason := none
  terminationStatus := 0
  waitOnSemaphore := 0
  hasTerminationHandler := hasTerminationHandler
  terminationHandlerCalls := 0
  notifications := 0
  sourceCancelled := false
  reaped := false

/-- A turn of the loop around `waitpid`. -/
def waitpidTurn (err_wp : WaitpidResult) (s : LaunchedTask) : LaunchedTask :=
  match err_wp with
  | .error errno => if errno = EINTR then s else { s with place := .gaveUp }
  | .zero => s
  | .pid wp_status => { s with place := .cancelSource wp_status, reaped := true }

/-- A step of the handler outside of that loop. -/
def stepHandler (s : LaunchedTask) : Exec Assertion LaunchedTask :=
  match s.place with
  | .notFired => pure { s with place := .waitpid }
  | .waitpid => .error .disabled
  | .cancelSource wp_status => do
    assertThat (s.running = true ∧ s.wasLaunched = true) .noRunningTask
    pure { s with place := .storeReason wp_status, sourceCancelled := true }
  | .storeReason wp_status => do
    let (terminationReason, terminationStatus) ← decodeStatus wp_status
    pure { s with
      place := .storeStatus terminationStatus
      terminationReason := some terminationReason }
  | .storeStatus terminationStatus =>
    pure { s with place := .clearRunning, terminationStatus := terminationStatus }
  | .clearRunning => pure { s with place := .signalSemaphore, running := false }
  | .signalSemaphore =>
    pure { s with
      place := .callTerminationHandler
      waitOnSemaphore := s.waitOnSemaphore + 1 }
  | .callTerminationHandler =>
    pure { s with
      place := .postNotification
      terminationHandlerCalls :=
        if s.hasTerminationHandler then s.terminationHandlerCalls + 1
        else s.terminationHandlerCalls }
  | .postNotification =>
    pure { s with place := .finished, notifications := s.notifications + 1 }
  | .finished => .error .disabled
  | .gaveUp => .error .disabled

/-- A turn of the loop gives up, has the status, or is followed by another one. -/
theorem waitpidTurn_cases (s : LaunchedTask) (err_wp : WaitpidResult) :
    (err_wp.Fails ∧ s.waitpidTurn err_wp = { s with place := .gaveUp }) ∨
    (∃ wp_status, err_wp = .pid wp_status ∧
      s.waitpidTurn err_wp = { s with place := .cancelSource wp_status, reaped := true }) ∨
    (¬ err_wp.Fails ∧ s.waitpidTurn err_wp = s) := by
  cases err_wp with
  | error errno =>
    by_cases hinterrupted : errno = EINTR
    · exact Or.inr (Or.inr ⟨fun hfails => hfails hinterrupted, if_pos hinterrupted⟩)
    · exact Or.inl ⟨hinterrupted, if_neg hinterrupted⟩
  | zero => exact Or.inr (Or.inr ⟨id, rfl⟩)
  | pid wp_status => exact Or.inr (Or.inl ⟨wp_status, rfl, rfl⟩)

/-- The steps of the handler outside of its loop, with what each of them needs. -/
inductive HandlerStep (s : LaunchedTask) : LaunchedTask → Prop where
  | fires (hplace : s.place = .notFired) : HandlerStep s { s with place := .waitpid }
  | cancelsSource {wp_status : Nat} (hplace : s.place = .cancelSource wp_status)
      (hrunning : s.running = true ∧ s.wasLaunched = true) :
      HandlerStep s { s with place := .storeReason wp_status, sourceCancelled := true }
  | storesReason {wp_status terminationStatus : Nat} {reason : NSTaskTerminationReason}
      (hplace : s.place = .storeReason wp_status)
      (hstatus : decodeStatus wp_status = .ok (reason, terminationStatus)) :
      HandlerStep s { s with
        place := .storeStatus terminationStatus
        terminationReason := some reason }
  | storesStatus {terminationStatus : Nat} (hplace : s.place = .storeStatus terminationStatus) :
      HandlerStep s { s with place := .clearRunning, terminationStatus := terminationStatus }
  | clearsRunning (hplace : s.place = .clearRunning) :
      HandlerStep s { s with place := .signalSemaphore, running := false }
  | signalsSemaphore (hplace : s.place = .signalSemaphore) :
      HandlerStep s { s with
        place := .callTerminationHandler
        waitOnSemaphore := s.waitOnSemaphore + 1 }
  | callsTerminationHandler (hplace : s.place = .callTerminationHandler) :
      HandlerStep s { s with
        place := .postNotification
        terminationHandlerCalls :=
          if s.hasTerminationHandler then s.terminationHandlerCalls + 1
          else s.terminationHandlerCalls }
  | postsNotification (hplace : s.place = .postNotification) :
      HandlerStep s { s with place := .finished, notifications := s.notifications + 1 }

theorem stepHandler_eq_ok {s t : LaunchedTask} : s.stepHandler = .ok t ↔ s.HandlerStep t := by
  constructor
  · intro hstep
    unfold stepHandler at hstep
    split at hstep <;> rename_i hplace
    case h_2 => cases hstep
    case h_3 =>
      simp only [bind_eq_ok, assertThat_eq_ok, pure_eq_ok] at hstep
      obtain ⟨_, hrunning, rfl⟩ := hstep
      exact .cancelsSource hplace hrunning
    case h_4 =>
      simp only [bind_eq_ok, pure_eq_ok] at hstep
      obtain ⟨⟨reason, terminationStatus⟩, hstatus, rfl⟩ := hstep
      exact .storesReason hplace hstatus
    case h_10 => cases hstep
    case h_11 => cases hstep
    all_goals
      obtain rfl := pure_eq_ok.mp hstep
    · exact .fires hplace
    · exact .storesStatus hplace
    · exact .clearsRunning hplace
    · exact .signalsSemaphore hplace
    · exact .callsTerminationHandler hplace
    · exact .postsNotification hplace
  · intro hstep
    unfold stepHandler
    cases hstep with
    | cancelsSource hplace hrunning =>
      rw [hplace]
      exact bind_eq_ok.mpr ⟨(), assertThat_eq_ok.mpr hrunning, rfl⟩
    | storesReason hplace hstatus =>
      rw [hplace]
      exact bind_eq_ok.mpr ⟨_, hstatus, rfl⟩
    | fires hplace => rw [hplace]; rfl
    | storesStatus hplace => rw [hplace]; rfl
    | clearsRunning hplace => rw [hplace]; rfl
    | signalsSemaphore hplace => rw [hplace]; rfl
    | callsTerminationHandler hplace => rw [hplace]; rfl
    | postsNotification hplace => rw [hplace]; rfl

/-! ## What the place of the handler says -/

end LaunchedTask

/-- The handler has the status of the child. -/
def HandlerPlace.hasStatus : HandlerPlace → Bool
  | .notFired | .waitpid | .gaveUp => false
  | _ => true

/-- The handler has written that the task is over. -/
def HandlerPlace.hasCleared : HandlerPlace → Bool
  | .signalSemaphore | .callTerminationHandler | .postNotification | .finished => true
  | _ => false

namespace LaunchedTask

/-- The child is gone once the handler has its status, and `running` is `NO` only some
steps later. -/
structure Consistent (s : LaunchedTask) : Prop where
  wasLaunched : s.wasLaunched = true
  reaped : s.reaped = s.place.hasStatus
  running : s.running = !s.place.hasCleared

theorem consistent_initial (processIdentifier : Int) (hasTerminationHandler : Bool) :
    (initial processIdentifier hasTerminationHandler).Consistent where
  wasLaunched := rfl
  reaped := rfl
  running := rfl

theorem Consistent.waitpidTurn {s : LaunchedTask} (h : s.Consistent)
    (hplace : s.place = .waitpid) (err_wp : WaitpidResult) :
    (s.waitpidTurn err_wp).Consistent := by
  have hreaped := h.reaped
  have hrunning := h.running
  rw [hplace] at hreaped hrunning
  rcases s.waitpidTurn_cases err_wp with ⟨_, hturn⟩ | ⟨wp_status, _, hturn⟩ | ⟨_, hturn⟩
  · rw [hturn]
    exact { wasLaunched := h.wasLaunched, reaped := hreaped, running := hrunning }
  · rw [hturn]
    exact { wasLaunched := h.wasLaunched, reaped := rfl, running := hrunning }
  · rw [hturn]
    exact h

theorem Consistent.stepHandler {s t : LaunchedTask} (h : s.Consistent)
    (hstep : s.stepHandler = .ok t) : t.Consistent := by
  have hreaped := h.reaped
  have hrunning := h.running
  cases stepHandler_eq_ok.mp hstep with
  | clearsRunning hplace =>
    rw [hplace] at hreaped
    exact { wasLaunched := h.wasLaunched, reaped := hreaped, running := rfl }
  | fires hplace | cancelsSource hplace | storesReason hplace | storesStatus hplace
  | signalsSemaphore hplace | callsTerminationHandler hplace | postsNotification hplace =>
    rw [hplace] at hreaped hrunning
    exact { wasLaunched := h.wasLaunched, reaped := hreaped, running := hrunning }

/-- Outside of its loop, the handler does not touch the child. -/
theorem reaped_stepHandler {s t : LaunchedTask} (hstep : s.stepHandler = .ok t) :
    t.reaped = s.reaped := by
  cases stepHandler_eq_ok.mp hstep <;> rfl

end LaunchedTask

end BromiumCoreUtils
