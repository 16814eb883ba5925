import BromiumCoreUtils.Task.WaitUntilExit
import BromiumCoreUtils.Lib.Log

/-!
# What other threads see of the end of a task

The handler of the exit writes `terminationReason`, `terminationStatus` and `running` one
after the other, signals the semaphore, and calls the termination handler.  Any number of
threads read the properties in between, and one of them waits in `waitUntilExit`.

A thread can learn in three ways that the task is over.  `endsSeenWhole_run` says that it
then reads nothing but final values.
-/

namespace BromiumCoreUtils

open Machine

/-- The atomic properties that tell about the end of a task. -/
inductive TaskProperty where
  | running
  | terminationReason
  | terminationStatus
deriving DecidableEq, Repr

/-- What a getter returns. -/
inductive PropertyValue where
  | running (value : Bool)
  | terminationReason (value : Option NSTaskTerminationReason)
  | terminationStatus (value : Nat)
deriving DecidableEq, Repr

def LaunchedTask.value (task : LaunchedTask) : TaskProperty → PropertyValue
  | .running => .running task.running
  | .terminationReason => .terminationReason task.terminationReason
  | .terminationStatus => .terminationStatus task.terminationStatus

/-- Something that a thread has seen. -/
inductive Observation (Th : Type) where
  /-- A getter has returned. -/
  | read (th : Th) (property : TaskProperty) (value : PropertyValue)
  /-- `waitUntilExit` has returned. -/
  | returned
  /-- The termination handler was entered. -/
  | entered
deriving DecidableEq, Repr

/-- A launched task, a thread that waits for it, and threads that read its properties. -/
structure ObservedTask (Th : Type) where
  waited : WaitedTask
  /-- The thread that calls `waitUntilExit`. -/
  waiter : Th
  /-- The thread that the handler of the exit runs on. -/
  handlerThread : Th
  observations : List (Observation Th)
deriving DecidableEq, Repr

/-- What the thread that moves sees of its own step. -/
def WaitedTask.observations {Th : Type} (s t : WaitedTask) : Event → List (Observation Th)
  | .waitpid _ => []
  | .handler =>
    if s.task.place = .callTerminationHandler ∧ s.task.hasTerminationHandler = true then [.entered]
    else []
  | .waitUntilExit => []
  | .waiter =>
    match t.waiter with
    | .returned _ => [.returned]
    | .notCalled | .readRunning | .semaphoreWait => []

namespace ObservedTask

variable {Th : Type}

inductive Event (Th : Type) where
  /-- The handler of the exit moves, or the thread that waits. -/
  | task (e : WaitedTask.Event)
  | read (th : Th) (property : TaskProperty)
deriving DecidableEq, Repr

/-- The task right after a launch that succeeded. -/
def initial (processIdentifier : Int) (hasTerminationHandler hasRunLoop : Bool)
    (waiter handlerThread : Th) : ObservedTask Th where
  waited := .initial processIdentifier hasTerminationHandler hasRunLoop
  waiter := waiter
  handlerThread := handlerThread
  observations := []

def step (s : ObservedTask Th) : Event Th → Exec Assertion (ObservedTask Th)
  | .task e => do
    let waited ← s.waited.step e
    pure { s with
      waited := waited
      observations := s.observations ++ s.waited.observations waited e }
  | .read th property =>
    pure { s with
      observations := s.observations ++ [.read th property (s.waited.task.value property)] }

end ObservedTask

/-! ## What the threads should see -/

/-- The value that a property has for good, for a child that ended with this status. -/
def TaskProperty.finalValue (wp_status : Nat) : TaskProperty → PropertyValue
  | .running => .running false
  | .terminationReason =>
    .terminationReason (some (if WIFSIGNALED wp_status then .uncaughtSignal else .exit))
  | .terminationStatus =>
    .terminationStatus (if WIFSIGNALED wp_status then WTERMSIG wp_status
      else WEXITSTATUS wp_status)

namespace ObservedTask

variable {Th : Type}

/-- The observation tells this thread that the task is over. -/
def TellsEnd (s : ObservedTask Th) (th : Th) : Observation Th → Prop
  | .read reader _ value => reader = th ∧ value = .running false
  | .returned => th = s.waiter
  | .entered => th = s.handlerThread

/-- A read by a thread that has learned that the task is over gives a final value. -/
def ReadsFinal (s : ObservedTask Th) (wp_status : Nat) (past : List (Observation Th)) :
    Observation Th → Prop
  | .read th property value =>
    (∃ seen ∈ past, s.TellsEnd th seen) → value = property.finalValue wp_status
  | .returned | .entered => True

/-- Nobody sees a half-finished end. -/
structure EndsSeenWhole (s : ObservedTask Th) (wp_status : Nat) : Prop where
  reads : Log.Justified (s.ReadsFinal wp_status) s.observations
  /-- `waitUntilExit` does not return while `running` is `YES`. -/
  returned : ∀ waited, s.waited.waiter = .returned waited → s.waited.task.running = false
  /-- `running` never becomes `YES` again. -/
  running : s.waited.task.running = false →
    ∀ s', Reachable step s s' → s'.waited.task.running = false

end ObservedTask

/-! ## What the handler has stored -/

namespace LaunchedTask

/-- What the handler has got from `waitpid` and stored so far belongs to this status. -/
def Stores (s : LaunchedTask) (wp_status : Nat) : Prop :=
  match s.place with
  | .notFired | .waitpid | .gaveUp => False
  | .cancelSource status | .storeReason status => status = wp_status
  | .storeStatus terminationStatus =>
    s.value .terminationReason = TaskProperty.terminationReason.finalValue wp_status ∧
      .terminationStatus terminationStatus = TaskProperty.terminationStatus.finalValue wp_status
  | .clearRunning | .signalSemaphore | .callTerminationHandler | .postNotification | .finished =>
    s.value .terminationReason = TaskProperty.terminationReason.finalValue wp_status ∧
      s.value .terminationStatus = TaskProperty.terminationStatus.finalValue wp_status

variable {s t : LaunchedTask} {wp_status : Nat}

/-- What the handler decodes is what the properties should say. -/
theorem finalValue_of_decodeStatus {reason : NSTaskTerminationReason} {terminationStatus : Nat}
    (h : decodeStatus wp_status = .ok (reason, terminationStatus)) :
    .terminationReason (some reason) = TaskProperty.terminationReason.finalValue wp_status ∧
      .terminationStatus terminationStatus =
        TaskProperty.terminationStatus.finalValue wp_status := by
  unfold decodeStatus at h
  simp only [TaskProperty.finalValue]
  split at h <;> rename_i hsignalled
  · rw [if_pos hsignalled, if_pos hsignalled]
    simpa [eq_comm] using pure_eq_ok.mp h
  · rw [if_neg hsignalled, if_neg hsignalled]
    split at h
    · simpa [eq_comm] using pure_eq_ok.mp h
    · cases h

theorem Stores.handler (h : s.Stores wp_status) (hhandler : s.HandlerStep t) :
    t.Stores wp_status := by
  unfold Stores at h
  cases hhandler with
  | fires hplace =>
    rw [hplace] at h
    exact h.elim
  | storesReason hplace hstatus =>
    rw [hplace] at h
    rw [← h]
    exact finalValue_of_decodeStatus hstatus
  | cancelsSource hplace | storesStatus hplace | clearsRunning hplace | signalsSemaphore hplace
  | callsTerminationHandler hplace | postsNotification hplace =>
    rw [hplace] at h
    exact h

/-- A handler that has written that the task is over has stored everything else before. -/
theorem Stores.value_eq (h : s.Stores wp_status) (hconsistent : s.Consistent)
    (hrunning : s.running = false) (property : TaskProperty) :
    s.value property = property.finalValue wp_status := by
  have hcleared : s.place.hasCleared = true := by
    have hplace := hconsistent.running
    rw [hrunning] at hplace
    simpa using hplace.symm
  unfold Stores at h
  cases property with
  | running =>
    show PropertyValue.running s.running = .running false
    rw [hrunning]
  | terminationReason =>
    cases hplace : s.place <;> simp only [hplace, HandlerPlace.hasCleared] at h hcleared
    all_goals first | exact h.1 | cases hcleared
  | terminationStatus =>
    cases hplace : s.place <;> simp only [hplace, HandlerPlace.hasCleared] at h hcleared
    all_goals first | exact h.2 | cases hcleared

/-- No step of the handler writes `YES` to `running`. -/
theorem HandlerStep.running (hhandler : s.HandlerStep t) (h : s.running = false) :
    t.running = false := by
  cases hhandler with
  | clearsRunning => rfl
  | _ => exact h

end LaunchedTask

/-! ## The thread that waits -/

namespace WaitedTask

variable {s t : WaitedTask} {e : Event}

theorem running_step (h : s.task.running = false) (hstep : s.step e = .ok t) :
    t.task.running = false := by
  cases transition_of_step hstep with
  | waitpid err_wp hplace =>
    show (s.task.waitpidTurn err_wp).running = false
    rcases s.task.waitpidTurn_cases err_wp with ⟨_, hturn⟩ | ⟨_, _, hturn⟩ | ⟨_, hturn⟩
    all_goals
      rw [hturn]
      exact h
  | handler hhandler => exact hhandler.running h
  | waitUntilExit | readsRunning | takesSignal | timesOut => exact h

/-- A thread that has returned from `waitUntilExit` finds the task over. -/
def ReturnedAfterEnd (s : WaitedTask) : Prop :=
  ∀ waited, s.waiter = .returned waited → s.task.running = false

/-- The signal that the thread takes came after `running` was written. -/
theorem Accounted.running_of_signal (h : s.Accounted) (hpos : 0 < s.task.waitOnSemaphore) :
    s.task.running = false := by
  have hsignals := h.semaphoreSignals
  have hvalue := h.waitOnSemaphore
  rw [h.consistent.running]
  cases hplace : s.task.place with
  | callTerminationHandler | postNotification | finished => rfl
  | _ =>
    rw [hplace] at hsignals
    simp only [HandlerPlace.hasSignalled, Bool.toNat_false] at hsignals
    omega

theorem ReturnedAfterEnd.step (h : s.ReturnedAfterEnd) (haccounted : s.Accounted)
    (hstep : s.step e = .ok t) : t.ReturnedAfterEnd := by
  intro waited hwaiter
  cases transition_of_step hstep with
  | readsRunning _ =>
    show s.task.running = false
    by_cases hrunning : s.task.running = true
    · simp [hrunning] at hwaiter
    · simpa using hrunning
  | takesSignal _ hpos => exact haccounted.running_of_signal hpos
  | waitUntilExit => cases hwaiter
  | waitpid | handler | timesOut => exact running_step (h waited hwaiter) hstep

/-- Nothing but the reads of the other threads is judged. -/
theorem not_read_of_mem_observations {Th : Type} {o : Observation Th}
    (ho : o ∈ s.observations t e) : o = .returned ∨ o = .entered := by
  unfold observations at ho
  grind

/-- What a thread sees of its own step tells it that the task is over. -/
theorem running_of_mem_observations {Th : Type} {o : Observation Th} (haccounted : s.Accounted)
    (hreturned : t.ReturnedAfterEnd) (hstep : s.step e = .ok t) (ho : o ∈ s.observations t e) :
    t.task.running = false := by
  cases e with
  | waitpid err_wp => simp [observations] at ho
  | waitUntilExit => simp [observations] at ho
  | handler =>
    have hplace : s.task.place = .callTerminationHandler := by
      by_contra hother
      simp [observations, hother] at ho
    have hrunning : s.task.running = false := by
      rw [haccounted.consistent.running, hplace]
      rfl
    exact running_step hrunning hstep
  | waiter =>
    cases hwaiter : t.waiter with
    | returned waited => exact hreturned waited hwaiter
    | notCalled | readRunning | semaphoreWait => simp [observations, hwaiter] at ho

end WaitedTask

/-! ## All the threads -/

namespace ObservedTask

open WaitedTask (ReturnedAfterEnd)

variable {Th : Type} {s t : ObservedTask Th} {events : List (Event Th)} {e : Event Th}
variable {wp_status : Nat}

/-- The child was reaped with this status. -/
def Event.reaps (wp_status : Nat) : Event Th := .task (.waitpid (.pid wp_status))

/-- Nobody has learned of an end that has not come, and what the threads have read is
final. -/
structure Tracked (events : List (Event Th)) (s : ObservedTask Th) : Prop where
  accounted : s.waited.Accounted
  returned : s.waited.ReturnedAfterEnd
  told : ∀ o ∈ s.observations, ∀ th, s.TellsEnd th o → s.waited.task.running = false
  stores : ∀ wp_status, .reaps wp_status ∈ events → s.waited.task.Stores wp_status
  reads : ∀ wp_status, .reaps wp_status ∈ events →
    Log.Justified (s.ReadsFinal wp_status) s.observations

theorem tracked_initial (processIdentifier : Int) (hasTerminationHandler hasRunLoop : Bool)
    (waiter handlerThread : Th) :
    Tracked [] (initial processIdentifier hasTerminationHandler hasRunLoop waiter handlerThread)
    where
  accounted := WaitedTask.accounted_initial processIdentifier hasTerminationHandler hasRunLoop
  returned _ hwaiter := by cases hwaiter
  told o ho := by simp [initial] at ho
  stores wp_status hreaped := by simp at hreaped
  reads wp_status hreaped := by simp at hreaped

/-- Before the end, no read has to give a final value. -/
theorem Tracked.reads_of_running (h : Tracked events s) (hrunning : s.waited.task.running = true)
    (wp_status : Nat) : Log.Justified (s.ReadsFinal wp_status) s.observations := by
  intro past o post hlog
  cases o with
  | returned | entered => trivial
  | read th property value =>
    intro hseen
    obtain ⟨seen, hmem, htells⟩ := hseen
    have hover := h.told seen (by simp [hlog, hmem]) th htells
    rw [hrunning] at hover
    cases hover

/-- The status stays the one that the child was reaped with. -/
theorem Tracked.stores_step (h : Tracked events s) {e : WaitedTask.Event} {waited : WaitedTask}
    (hstep : s.waited.step e = .ok waited) (hreaped : .reaps wp_status ∈ events ++ [.task e]) :
    waited.task.Stores wp_status := by
  have hbefore (hnot : e ≠ .waitpid (.pid wp_status)) : s.waited.task.Stores wp_status := by
    apply h.stores
    simpa [Event.reaps, Ne.symm hnot] using hreaped
  cases WaitedTask.transition_of_step hstep with
  | waitpid err_wp hplace =>
    by_cases hthis : err_wp = .pid wp_status
    · rw [hthis]
      rfl
    · -- the place of the handler rules out an earlier status
      have hstored := hbefore (by simpa using hthis)
      unfold LaunchedTask.Stores at hstored
      rw [hplace] at hstored
      exact hstored.elim
  | handler hhandler => exact (hbefore (by simp)).handler hhandler
  | waitUntilExit | readsRunning | takesSignal | timesOut => exact hbefore (by simp)

theorem Tracked.task (h : Tracked events s) {e : WaitedTask.Event} {waited : WaitedTask}
    (hstep : s.waited.step e = .ok waited) :
    Tracked (events ++ [.task e]) { s with
      waited := waited
      observations := s.observations ++ s.waited.observations waited e } := by
  have hreturned := h.returned.step h.accounted hstep
  refine
    { accounted := h.accounted.step hstep, returned := hreturned, told := ?_,
      stores := fun wp_status hreaped => h.stores_step hstep hreaped, reads := ?_ }
  · intro o ho th htells
    rcases List.mem_append.mp ho with hold | hnew
    · exact WaitedTask.running_step (h.told o hold th htells) hstep
    · exact WaitedTask.running_of_mem_observations h.accounted hreturned hstep hnew
  · intro wp_status hreaped
    have hreads : Log.Justified (s.ReadsFinal wp_status) s.observations := by
      rcases List.mem_append.mp hreaped with hbefore | hnow
      · exact h.reads wp_status hbefore
      · -- the handler was still waiting for the status
        obtain rfl : WaitedTask.Event.waitpid (.pid wp_status) = e := by
          simpa [Event.reaps] using hnow
        apply h.reads_of_running
        rw [h.accounted.consistent.running]
        cases WaitedTask.transition_of_step hstep with
        | waitpid _ hplace =>
          rw [hplace]
          rfl
    apply hreads.append
    intro o ho past
    rcases WaitedTask.not_read_of_mem_observations ho with rfl | rfl
    · trivial
    · trivial

theorem Tracked.read (h : Tracked events s) (th : Th) (property : TaskProperty) :
    Tracked (events ++ [.read th property]) { s with
      observations :=
        s.observations ++ [.read th property (s.waited.task.value property)] } := by
  have hevents {wp_status : Nat} (hreaped : .reaps wp_status ∈ events ++ [.read th property]) :
      .reaps wp_status ∈ events := by
    simpa [Event.reaps] using hreaped
  refine
    { accounted := h.accounted, returned := h.returned, told := ?_,
      stores := fun wp_status hreaped => h.stores wp_status (hevents hreaped), reads := ?_ }
  · intro o ho th' htells
    rcases List.mem_append.mp ho with hold | hnew
    · exact h.told o hold th' htells
    · rw [List.mem_singleton.mp hnew] at htells
      have hvalue : s.waited.task.value property = .running false := htells.2
      cases property with
      | running => simpa [LaunchedTask.value] using hvalue
      | terminationReason | terminationStatus => simp [LaunchedTask.value] at hvalue
  · intro wp_status hreaped
    refine Log.justified_concat_iff.mpr ⟨h.reads wp_status (hevents hreaped), ?_⟩
    intro hseen
    obtain ⟨seen, hmem, htells⟩ := hseen
    have hrunning := h.told seen hmem th htells
    exact (h.stores wp_status (hevents hreaped)).value_eq h.accounted.consistent hrunning property

/-- The step lemma. -/
theorem Tracked.step (h : Tracked events s) (hstep : s.step e = .ok t) :
    Tracked (events ++ [e]) t := by
  cases e with
  | task e =>
    simp only [ObservedTask.step, bind_eq_ok, pure_eq_ok] at hstep
    obtain ⟨waited, hwaited, rfl⟩ := hstep
    exact h.task hwaited
  | read th property =>
    obtain rfl := pure_eq_ok.mp hstep
    exact h.read th property

theorem running_reachable (hreach : Reachable step s t) (h : s.waited.task.running = false) :
    t.waited.task.running = false := by
  refine hreach.invariant (I := fun m => m.waited.task.running = false) h ?_
  intro m e n _ hm hstep
  cases e with
  | task e =>
    simp only [step, bind_eq_ok, pure_eq_ok] at hstep
    obtain ⟨waited, hwaited, rfl⟩ := hstep
    exact WaitedTask.running_step hm hwaited
  | read th property =>
    obtain rfl := pure_eq_ok.mp hstep
    exact hm

/-- In every run in which the handler reaps the child, nobody sees a half-finished end. -/
theorem endsSeenWhole_run {processIdentifier : Int} {hasTerminationHandler hasRunLoop : Bool}
    {waiter handlerThread : Th}
    (hrun : run step
      (initial processIdentifier hasTerminationHandler hasRunLoop waiter handlerThread) events =
        .ok t)
    (hreaped : .reaps wp_status ∈ events) : t.EndsSeenWhole wp_status := by
  have htracked : Tracked events t := by
    refine run_history (I := Tracked) ?_ ?_ hrun
    · exact tracked_initial processIdentifier hasTerminationHandler hasRunLoop waiter handlerThread
    · intro _ _ _ _ _ h hstep
      exact h.step hstep
  exact
    { reads := htracked.reads wp_status hreaped
      returned := htracked.returned
      running := fun hover _ hreach => running_reachable hreach hover }

/-- A `SIGTERM` ends the child.  A thread reads the reason between two writes, and again after
it has read `NO`; the client comes back from its wait. -/
theorem endsSeenWhole_run_terminated : ∃ t : ObservedTask Nat,
    run step (initial 70 true false 1 2)
      [.task .waitUntilExit, .task .waiter, .task .handler, .task (.waitpid (.pid 15)),
        .task .handler, .task .handler, .read 3 .terminationStatus, .task .handler,
        .task .handler, .read 3 .running, .read 3 .terminationStatus, .task .handler,
        .task .waiter, .read 1 .terminationReason, .task .handler, .read 2 .running] = .ok t ∧
      t.observations =
        [.read 3 .terminationStatus (.terminationStatus 0), .read 3 .running (.running false),
          .read 3 .terminationStatus (.terminationStatus 15), .returned,
          .read 1 .terminationReason (.terminationReason (some .uncaughtSignal)), .entered,
          .read 2 .running (.running false)] ∧
      t.EndsSeenWhole 15 := by
  obtain ⟨t, hrun, hobservations⟩ : ∃ t : ObservedTask Nat,
      run step (initial 70 true false 1 2)
        [.task .waitUntilExit, .task .waiter, .task .handler, .task (.waitpid (.pid 15)),
          .task .handler, .task .handler, .read 3 .terminationStatus, .task .handler,
          .task .handler, .read 3 .running, .read 3 .terminationStatus, .task .handler,
          .task .waiter, .read 1 .terminationReason, .task .handler, .read 2 .running] = .ok t ∧
        t.observations =
          [.read 3 .terminationStatus (.terminationStatus 0), .read 3 .running (.running false),
            .read 3 .terminationStatus (.terminationStatus 15), .returned,
            .read 1 .terminationReason (.terminationReason (some .uncaughtSignal)), .entered,
            .read 2 .running (.running false)] := ⟨_, rfl, rfl⟩
  exact ⟨t, hrun, hobservations, endsSeenWhole_run hrun (by decide)⟩

end ObservedTask

end BromiumCoreUtils
