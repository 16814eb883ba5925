import BromiumCoreUtils.Task.ExitHandler

/-!
# Waiting for the end of a task

`waitUntilExit` reads `running` and then waits for the semaphore, while the handler of
the exit does its work on another thread.  The semaphore is signalled by that handler
only.  With a run loop the method waits for a second at a time, without one it blocks.

`published_iff` says when a handler that is done has told everybody: when `waitpid`
has not failed.
-/

namespace BromiumCoreUtils

open Machine

/-- Where the thread that calls `waitUntilExit` is. -/
inductive WaiterPlace where
  | notCalled
  | readRunning
  /-- It has read `YES`. -/
  | semaphoreWait
  | returned (waited : Bool)
deriving DecidableEq, Repr

/-- A wait that was answered took one signal. -/
def WaiterPlace.semaphoreWaits : WaiterPlace → Nat
  | .returned true => 1
  | _ => 0

/-- A launched task and a thread that waits for it. -/
structure WaitedTask where
  task : LaunchedTask
  waiter : WaiterPlace
  hasBeenWaitedOn : Bool
  /-- `[NSRunLoop currentRunLoop]` of the thread that waits is not `nil`. -/
  hasRunLoop : Bool
  /-- How often `dispatch_semaphore_signal` was called. -/
  semaphoreSignals : Nat
deriving DecidableEq, Repr

namespace WaitedTask

inductive Event where
  | waitpid (err_wp : WaitpidResult)
  | handler
  /-- `waitUntilExit` is called. -/
  | waitUntilExit
  /-- The method goes on. -/
  | waiter
deriving DecidableEq, Repr

/-- The task right after a launch that succeeded. -/
def initial (processIdentifier : Int) (hasTerminationHandler hasRunLoop : Bool) : WaitedTask where
  task := .initial processIdentifier hasTerminationHandler
  waiter := .notCalled
  hasBeenWaitedOn := false
  hasRunLoop := hasRunLoop
  semaphoreSignals := 0

/-- A `dispatch_semaphore_wait`.  With a run loop it comes back after its timeout, and
the run loop runs for a second before the next one. -/
def semaphoreWait (s : WaitedTask) : Exec Assertion WaitedTask :=
  if 0 < s.task.waitOnSemaphore then
    pure { s with
      task := { s.task with waitOnSemaphore := s.task.waitOnSemaphore - 1 }
      waiter := .returned true }
  else do
    enabledIf (s.hasRunLoop = true)
    pure s

def step (s : WaitedTask) : Event → Exec Assertion WaitedTask
  | .waitpid err_wp => do
    enabledIf (s.task.place = .waitpid)
    pure { s with task := s.task.waitpidTurn err_wp }
  | .handler => do
    let task ← s.task.stepHandler
    pure { s with
      task := task
      semaphoreSignals :=
        if s.task.place = .signalSemaphore then s.semaphoreSignals + 1
        else s.semaphoreSignals }
  | .waitUntilExit =>
    match s.waiter with
    | .notCalled | .returned _ => do
      assertThat (s.task.wasLaunched = true) .notLaunchedYet
      assertThat (s.hasBeenWaitedOn = false) .alreadyWaited
      pure { s with waiter := .readRunning, hasBeenWaitedOn := true }
    | .readRunning | .semaphoreWait => .error .disabled
  | .waiter =>
    match s.waiter with
    | .readRunning =>
      pure { s with waiter := if s.task.running then .semaphoreWait else .returned false }
    | .semaphoreWait => s.semaphoreWait
    | .notCalled | .returned _ => .error .disabled

end WaitedTask

/-- The child has exited or was ended by a signal, if there is a status. -/
def WaitpidResult.HasEnded : WaitpidResult → Prop
  | .pid wp_status => WIFSIGNALED wp_status = true ∨ WIFEXITED wp_status = true
  | _ => True

/-- The handler has signalled the semaphore. -/
def HandlerPlace.hasSignalled : HandlerPlace → Bool
  | .callTerminationHandler | .postNotification | .finished => true
  | _ => false

/-- The handler has called the termination handler, if there is one. -/
def HandlerPlace.hasCalled : HandlerPlace → Bool
  | .postNotification | .finished => true
  | _ => false

/-- The handler has returned. -/
def HandlerPlace.isDone : HandlerPlace → Bool
  | .finished | .gaveUp => true
  | _ => false

/-- The steps that the handler has still to take. -/
def HandlerPlace.stepsLeft : HandlerPlace → Nat
  | .notFired => 9
  | .waitpid => 8
  | .cancelSource _ => 7
  | .storeReason _ => 6
  | .storeStatus _ => 5
  | .clearRunning => 4
  | .signalSemaphore => 3
  | .callTerminationHandler => 2
  | .postNotification => 1
  | .finished => 0
  | .gaveUp => 0

namespace LaunchedTask

variable {s t : LaunchedTask}

/-- Outside of its loop, every step brings the handler closer to its end. -/
theorem HandlerStep.stepsLeft_lt (h : s.HandlerStep t) :
    t.place.stepsLeft < s.place.stepsLeft := by
  cases h with
  | fires hplace | cancelsSource hplace | storesReason hplace | storesStatus hplace
  | clearsRunning hplace | signalsSemaphore hplace | callsTerminationHandler hplace
  | postsNotification hplace =>
    rw [hplace]
    simp [HandlerPlace.stepsLeft]

theorem HandlerStep.ne_gaveUp (h : s.HandlerStep t) : t.place ≠ .gaveUp := by
  cases h <;> simp

/-- The status stays the one that the loop got. -/
theorem HandlerStep.status (h : s.HandlerStep t) {wp_status : Nat}
    (hstatus : t.place = .cancelSource wp_status ∨ t.place = .storeReason wp_status) :
    s.place = .cancelSource wp_status := by
  cases h with
  | @cancelsSource wp_status' hplace hrunning =>
    obtain rfl : wp_status' = wp_status := by simpa using hstatus
    exact hplace
  | _ => simp at hstatus

end LaunchedTask

namespace WaitedTask

/-- Everybody knows that the task is over, and nobody waits for it in vain: from now on,
whatever happens, the next turn of a thread that waits is its last. -/
structure Published (t : WaitedTask) : Prop where
  running : t.task.running = false
  semaphoreSignals : t.semaphoreSignals = 1
  terminationHandlerCalls :
    t.task.terminationHandlerCalls = if t.task.hasTerminationHandler then 1 else 0
  waiter : ∀ t', Reachable step t t' → t'.waiter = .semaphoreWait →
    ∃ t'', step t' .waiter = .ok t'' ∧ t''.waiter = .returned true

/-- The handler goes on: `waitpid` gives it a result, or its next step is possible. -/
def HandlerGoesOn (t : WaitedTask) : Prop :=
  t.task.place = .waitpid ∨
    ∃ t', step t .handler = .ok t' ∧ t'.task.place.stepsLeft < t.task.place.stepsLeft

/-! ## The steps -/

/-- The steps, one constructor for each branch. -/
inductive Transition (s : WaitedTask) : Event → WaitedTask → Prop where
  | waitpid (err_wp : WaitpidResult) (hplace : s.task.place = .waitpid) :
      Transition s (.waitpid err_wp) { s with task := s.task.waitpidTurn err_wp }
  | handler {task : LaunchedTask} (hhandler : s.task.HandlerStep task) :
      Transition s .handler { s with
        task := task
        semaphoreSignals :=
          if s.task.place = .signalSemaphore then s.semaphoreSignals + 1
          else s.semaphoreSignals }
  | waitUntilExit (hlaunched : s.task.wasLaunched = true) (hnot : s.hasBeenWaitedOn = false) :
      Transition s .waitUntilExit { s with waiter := .readRunning, hasBeenWaitedOn := true }
  | readsRunning (hwaiter : s.waiter = .readRunning) :
      Transition s .waiter
        { s with waiter := if s.task.running then .semaphoreWait else .returned false }
  | takesSignal (hwaiter : s.waiter = .semaphoreWait) (hpos : 0 < s.task.waitOnSemaphore) :
      Transition s .waiter { s with
        task := { s.task with waitOnSemaphore := s.task.waitOnSemaphore - 1 }
        waiter := .returned true }
  | timesOut (hwaiter : s.waiter = .semaphoreWait) (hzero : ¬ 0 < s.task.waitOnSemaphore)
      (hrunLoop : s.hasRunLoop = true) : Transition s .waiter s

variable {s t : WaitedTask} {e : Event}

theorem transition_of_step (hstep : s.step e = .ok t) : s.Transition e t := by
  cases e with
  | waitpid err_wp =>
    simp only [step, bind_eq_ok, enabledIf_eq_ok, pure_eq_ok] at hstep
    obtain ⟨_, hplace, rfl⟩ := hstep
    exact .waitpid err_wp hplace
  | handler =>
    simp only [step, bind_eq_ok, pure_eq_ok] at hstep
    obtain ⟨task, htask, rfl⟩ := hstep
    exact .handler (LaunchedTask.stepHandler_eq_ok.mp htask)
  | waitUntilExit =>
    simp only [step] at hstep
    split at hstep
    case h_3 | h_4 => cases hstep
    case h_1 | h_2 =>
      simp only [bind_eq_ok, assertThat_eq_ok, pure_eq_ok] at hstep
      obtain ⟨_, hlaunched, _, hnot, rfl⟩ := hstep
      exact .waitUntilExit hlaunched hnot
  | waiter =>
    simp only [step] at hstep
    split at hstep <;> rename_i hwaiter
    · obtain rfl := pure_eq_ok.mp hstep
      exact .readsRunning hwaiter
    · unfold semaphoreWait at hstep
      split at hstep <;> rename_i hpos
      · obtain rfl := pure_eq_ok.mp hstep
        exact .takesSignal hwaiter hpos
      · simp only [bind_eq_ok, enabledIf_eq_ok, pure_eq_ok] at hstep
        obtain ⟨_, hrunLoop, rfl⟩ := hstep
        exact .timesOut hwaiter hpos hrunLoop
    all_goals cases hstep

/-! ## What adds up -/

/-- Every signal is still in the semaphore or was taken, and what the handler has done is
what its place says. -/
structure Accounted (s : WaitedTask) : Prop where
  consistent : s.task.Consistent
  semaphoreSignals : s.semaphoreSignals = s.task.place.hasSignalled.toNat
  waitOnSemaphore : s.task.waitOnSemaphore + s.waiter.semaphoreWaits = s.semaphoreSignals
  terminationHandlerCalls : s.task.terminationHandlerCalls =
    (s.task.place.hasCalled && s.task.hasTerminationHandler).toNat
  notCalled : s.hasBeenWaitedOn = false → s.waiter = .notCalled

theorem accounted_initial (processIdentifier : Int) (hasTerminationHandler hasRunLoop : Bool) :
    (initial processIdentifier hasTerminationHandler hasRunLoop).Accounted where
  consistent := LaunchedTask.consistent_initial processIdentifier hasTerminationHandler
  semaphoreSignals := rfl
  waitOnSemaphore := rfl
  terminationHandlerCalls := rfl
  notCalled _ := rfl

/-- A turn of the loop signals and calls nothing. -/
theorem Accounted.waitpid (h : s.Accounted) (hplace : s.task.place = .waitpid)
    (err_wp : WaitpidResult) :
    Accounted { s with task := s.task.waitpidTurn err_wp } := by
  have hsignals := h.semaphoreSignals
  have hcalls := h.terminationHandlerCalls
  have hconsistent := h.consistent.waitpidTurn hplace err_wp
  rw [hplace] at hsignals hcalls
  rcases s.task.waitpidTurn_cases err_wp with ⟨_, hturn⟩ | ⟨wp_status, _, hturn⟩ | ⟨_, hturn⟩
  · rw [hturn] at hconsistent ⊢
    exact
      { consistent := hconsistent, semaphoreSignals := hsignals,
        waitOnSemaphore := h.waitOnSemaphore, terminationHandlerCalls := hcalls,
        notCalled := h.notCalled }
  · rw [hturn] at hconsistent ⊢
    exact
      { consistent := hconsistent, semaphoreSignals := hsignals,
        waitOnSemaphore := h.waitOnSemaphore, terminationHandlerCalls := hcalls,
        notCalled := h.notCalled }
  · rw [hturn]
    exact h

theorem Accounted.handler {task : LaunchedTask} (h : s.Accounted)
    (hhandler : s.task.HandlerStep task) :
    Accounted { s with
      task := task
      semaphoreSignals :=
        if s.task.place = .signalSemaphore then s.semaphoreSignals + 1
        else s.semaphoreSignals } := by
  have hsignals := h.semaphoreSignals
  have hvalue := h.waitOnSemaphore
  have hcalls := h.terminationHandlerCalls
  have hconsistent := h.consistent.stepHandler (LaunchedTask.stepHandler_eq_ok.mpr hhandler)
  cases hhandler with
  | signalsSemaphore hplace =>
    rw [hplace] at hsignals hcalls
    rw [if_pos hplace]
    have hzero : s.semaphoreSignals = 0 := hsignals
    refine
      { consistent := hconsistent, semaphoreSignals := ?_, waitOnSemaphore := ?_,
        terminationHandlerCalls := hcalls, notCalled := h.notCalled }
    · show s.semaphoreSignals + 1 = 1
      omega
    · show s.task.waitOnSemaphore + 1 + s.waiter.semaphoreWaits = s.semaphoreSignals + 1
      omega
  | callsTerminationHandler hplace =>
    have hother : s.task.place ≠ .signalSemaphore := by rw [hplace]; decide
    rw [hplace] at hsignals hcalls
    rw [if_neg hother]
    have hzero : s.task.terminationHandlerCalls = 0 := hcalls
    refine
      { consistent := hconsistent, semaphoreSignals := hsignals, waitOnSemaphore := hvalue,
        terminationHandlerCalls := ?_, notCalled := h.notCalled }
    show (if s.task.hasTerminationHandler then s.task.terminationHandlerCalls + 1
      else s.task.terminationHandlerCalls) = s.task.hasTerminationHandler.toNat
    rw [hzero]
    cases s.task.hasTerminationHandler <;> rfl
  | fires hplace | cancelsSource hplace | storesReason hplace | storesStatus hplace
  | clearsRunning hplace | postsNotification hplace =>
    have hother : s.task.place ≠ .signalSemaphore := by simp [hplace]
    rw [hplace] at hsignals hcalls
    rw [if_neg hother]
    exact
      { consistent := hconsistent, semaphoreSignals := hsignals, waitOnSemaphore := hvalue,
        terminationHandlerCalls := hcalls, notCalled := h.notCalled }

/-- A wait that is answered takes the signal. -/
theorem Accounted.takesSignal (h : s.Accounted) (hwaiter : s.waiter = .semaphoreWait)
    (hpos : 0 < s.task.waitOnSemaphore) :
    Accounted { s with
      task := { s.task with waitOnSemaphore := s.task.waitOnSemaphore - 1 }
      waiter := .returned true } := by
  have hvalue := h.waitOnSemaphore
  have hcalled (hnot : s.hasBeenWaitedOn = false) : s.waiter = .notCalled := h.notCalled hnot
  rw [hwaiter] at hvalue hcalled
  have hzero : s.task.waitOnSemaphore + 0 = s.semaphoreSignals := hvalue
  refine
    { consistent := ⟨h.consistent.wasLaunched, h.consistent.reaped, h.consistent.running⟩
      semaphoreSignals := h.semaphoreSignals
      waitOnSemaphore := ?_
      terminationHandlerCalls := h.terminationHandlerCalls
      notCalled := ?_ }
  · show s.task.waitOnSemaphore - 1 + 1 = s.semaphoreSignals
    omega
  · intro hnot
    cases hcalled hnot

/-- The step lemma. -/
theorem Accounted.step (h : s.Accounted) (hstep : s.step e = .ok t) : t.Accounted := by
  have hvalue := h.waitOnSemaphore
  cases transition_of_step hstep with
  | waitpid err_wp hplace => exact h.waitpid hplace err_wp
  | handler hhandler => exact h.handler hhandler
  | waitUntilExit _ hnot =>
    -- the method runs for the first time, so nothing was waited for
    rw [h.notCalled hnot] at hvalue
    exact { h with waitOnSemaphore := hvalue, notCalled := fun hcalled => by cases hcalled }
  | readsRunning hwaiter =>
    have hcalled (hnot : s.hasBeenWaitedOn = false) : s.waiter = .notCalled := h.notCalled hnot
    rw [hwaiter] at hvalue hcalled
    refine { h with waitOnSemaphore := ?_, notCalled := ?_ }
    · cases s.task.running <;> exact hvalue
    · intro hnot
      cases hcalled hnot
  | takesSignal hwaiter hpos => exact h.takesSignal hwaiter hpos
  | timesOut _ _ _ => exact h

theorem accounted_run {events : List Event} (h : s.Accounted)
    (hrun : run WaitedTask.step s events = .ok t) : t.Accounted :=
  Reachable.invariant ⟨events, hrun⟩ h fun _ _ _ _ hm hstep => Accounted.step hm hstep

/-! ## What the handler comes to -/

/-- What a step does to the place of the handler. -/
theorem place_cases (hstep : s.step e = .ok t) :
    (∃ err_wp, e = .waitpid err_wp ∧ s.task.place = .waitpid ∧
      t.task = s.task.waitpidTurn err_wp) ∨
    (e = .handler ∧ s.task.HandlerStep t.task) ∨
    ((∀ err_wp, e ≠ .waitpid err_wp) ∧ t.task.place = s.task.place) := by
  cases transition_of_step hstep with
  | waitpid err_wp hplace => exact Or.inl ⟨err_wp, rfl, hplace, rfl⟩
  | handler hhandler => exact Or.inr (Or.inl ⟨rfl, hhandler⟩)
  | waitUntilExit | readsRunning | takesSignal | timesOut =>
    refine Or.inr (Or.inr ⟨?_, rfl⟩)
    intro err_wp he
    cases he

/-- The handler gives up when `waitpid` fails, and at no other time. -/
theorem gaveUp_step (hstep : s.step e = .ok t) :
    t.task.place = .gaveUp ↔
      s.task.place = .gaveUp ∨ ∃ err_wp : WaitpidResult, err_wp.Fails ∧ e = .waitpid err_wp := by
  rcases place_cases hstep with ⟨err_wp, rfl, hplace, hturn⟩ | ⟨rfl, hhandler⟩ | ⟨hother, hplace⟩
  · have hfails : (∃ err_wp' : WaitpidResult, err_wp'.Fails ∧
        Event.waitpid err_wp = .waitpid err_wp') ↔ err_wp.Fails := by simp
    rw [hturn, hplace, hfails, or_iff_right (by simp)]
    rcases s.task.waitpidTurn_cases err_wp with ⟨hfail, hcase⟩ | ⟨wp_status, rfl, hcase⟩ |
      ⟨hnot, hcase⟩
    · simp [hcase, hfail]
    · simp [hcase, WaitpidResult.Fails]
    · simp [hcase, hplace, hnot]
  · have hleft := hhandler.stepsLeft_lt
    have hbefore : s.task.place ≠ .gaveUp := by
      intro hgaveUp
      rw [hgaveUp] at hleft
      simp [HandlerPlace.stepsLeft] at hleft
    simp [hbefore, hhandler.ne_gaveUp]
  · rw [hplace]
    constructor
    · exact Or.inl
    · rintro (hgaveUp | ⟨err_wp, _, he⟩)
      · exact hgaveUp
      · exact absurd he (hother err_wp)

theorem gaveUp_run {events : List Event} (hrun : run WaitedTask.step s events = .ok t) :
    t.task.place = .gaveUp ↔
      s.task.place = .gaveUp ∨
        ∃ err_wp : WaitpidResult, err_wp.Fails ∧ .waitpid err_wp ∈ events := by
  induction events generalizing s with
  | nil =>
    obtain rfl : s = t := by simpa using hrun
    simp
  | cons e events ih =>
    obtain ⟨m, hm, hrest⟩ := run_cons_eq_ok.mp hrun
    rw [ih hrest, gaveUp_step hm, or_assoc]
    apply or_congr_right
    simp only [List.mem_cons]
    constructor
    · rintro (⟨err_wp, hfails, he⟩ | ⟨err_wp, hfails, hmem⟩)
      · exact ⟨err_wp, hfails, Or.inl he.symm⟩
      · exact ⟨err_wp, hfails, Or.inr hmem⟩
    · rintro ⟨err_wp, hfails, he | hmem⟩
      · exact Or.inl ⟨err_wp, hfails, he.symm⟩
      · exact Or.inr ⟨err_wp, hfails, hmem⟩

/-- A handler that is done does nothing any more. -/
theorem finished_step (h : s.task.place = .finished) (hstep : s.step e = .ok t) :
    t.task.place = .finished := by
  rcases place_cases hstep with ⟨_, _, hplace, _⟩ | ⟨_, hhandler⟩ | ⟨_, hplace⟩
  · rw [h] at hplace
    cases hplace
  · have hleft := hhandler.stepsLeft_lt
    rw [h] at hleft
    simp [HandlerPlace.stepsLeft] at hleft
  · rw [hplace, h]

/-- The status that the handler has is one of a child that has ended. -/
def StatusOk (s : WaitedTask) : Prop :=
  ∀ wp_status, s.task.place = .cancelSource wp_status ∨ s.task.place = .storeReason wp_status →
    WaitpidResult.HasEnded (.pid wp_status)

/-- `waitpid` has no status of a child that is only stopped. -/
def Event.HasEnded : Event → Prop
  | .waitpid err_wp => err_wp.HasEnded
  | _ => True

theorem StatusOk.step (h : s.StatusOk) (hended : e.HasEnded) (hstep : s.step e = .ok t) :
    t.StatusOk := by
  intro wp_status hstatus
  rcases place_cases hstep with ⟨err_wp, rfl, hplace, hturn⟩ | ⟨rfl, hhandler⟩ | ⟨_, hplace⟩
  · rw [hturn] at hstatus
    rcases s.task.waitpidTurn_cases err_wp with ⟨_, hcase⟩ | ⟨wp_status', rfl, hcase⟩ |
      ⟨_, hcase⟩
    · simp [hcase] at hstatus
    · obtain rfl : wp_status' = wp_status := by simpa [hcase] using hstatus
      exact hended
    · rw [hcase] at hstatus
      exact h wp_status hstatus
  · exact h wp_status (Or.inl (hhandler.status hstatus))
  · rw [hplace] at hstatus
    exact h wp_status hstatus

/-- A status of a child that has ended can be decoded. -/
theorem exists_decodeStatus {wp_status : Nat} (h : WaitpidResult.HasEnded (.pid wp_status)) :
    ∃ decoded, decodeStatus wp_status = .ok decoded := by
  unfold decodeStatus
  split
  · exact ⟨_, rfl⟩
  · rename_i hnotSignalled
    rw [if_pos (h.resolve_left hnotSignalled)]
    exact ⟨_, rfl⟩

/-- A handler that is not done goes on. -/
theorem handlerGoesOn (h : t.Accounted) (hstatus : t.StatusOk)
    (hnot : t.task.place.isDone = false) : t.HandlerGoesOn := by
  have hgoes {task : LaunchedTask} (hstep : t.task.HandlerStep task) : t.HandlerGoesOn := by
    refine Or.inr ⟨_, bind_eq_ok.mpr ⟨task, LaunchedTask.stepHandler_eq_ok.mpr hstep, rfl⟩, ?_⟩
    exact hstep.stepsLeft_lt
  have hrunning := h.consistent.running
  cases hplace : t.task.place with
  | notFired => exact hgoes (.fires hplace)
  | waitpid => exact Or.inl hplace
  | cancelSource wp_status =>
    rw [hplace] at hrunning
    exact hgoes (.cancelsSource hplace ⟨hrunning, h.consistent.wasLaunched⟩)
  | storeReason wp_status =>
    obtain ⟨⟨reason, terminationStatus⟩, hdecoded⟩ :=
      exists_decodeStatus (hstatus wp_status (Or.inr hplace))
    exact hgoes (.storesReason hplace hdecoded)
  | storeStatus terminationStatus => exact hgoes (.storesStatus hplace)
  | clearRunning => exact hgoes (.clearsRunning hplace)
  | signalSemaphore => exact hgoes (.signalsSemaphore hplace)
  | callTerminationHandler => exact hgoes (.callsTerminationHandler hplace)
  | postNotification => exact hgoes (.postsNotification hplace)
  | finished | gaveUp =>
    rw [hplace] at hnot
    cases hnot

/-- A handler that has finished has published the end of the task. -/
theorem published_of_finished (h : t.Accounted) (hfinished : t.task.place = .finished) :
    t.Published := by
  have hrunning := h.consistent.running
  have hsignals := h.semaphoreSignals
  have hcalls := h.terminationHandlerCalls
  rw [hfinished] at hrunning hsignals hcalls
  refine ⟨hrunning, hsignals, ?_, ?_⟩
  · rw [hcalls]
    cases t.task.hasTerminationHandler <;> rfl
  · intro t' hreach hwaiter
    obtain ⟨h', hfinished'⟩ : t'.Accounted ∧ t'.task.place = .finished := by
      refine hreach.invariant (I := fun t' => t'.Accounted ∧ t'.task.place = .finished)
        ⟨h, hfinished⟩ ?_
      rintro m e n _ ⟨hm, hplace⟩ hstep
      exact ⟨hm.step hstep, finished_step hplace hstep⟩
    -- the one signal was not taken yet
    have hvalue := h'.waitOnSemaphore
    rw [h'.semaphoreSignals, hfinished', hwaiter] at hvalue
    have hone : t'.task.waitOnSemaphore + 0 = 1 := hvalue
    have hpos : 0 < t'.task.waitOnSemaphore := by omega
    simp only [step, hwaiter, semaphoreWait, if_pos hpos]
    exact ⟨_, rfl, rfl⟩

/-- In every run the handler goes on until it is done.  By then it has published the end of
the task if and only if no `waitpid` failed. -/
theorem published_iff {processIdentifier : Int} {hasTerminationHandler hasRunLoop : Bool}
    {events : List Event}
    (hrun : run WaitedTask.step (initial processIdentifier hasTerminationHandler hasRunLoop)
      events = .ok t)
    (hended : ∀ err_wp, .waitpid err_wp ∈ events → err_wp.HasEnded) :
    (t.task.place.isDone = false → t.HandlerGoesOn) ∧
    (t.task.place.isDone = true →
      (t.Published ↔ ∀ err_wp, .waitpid err_wp ∈ events → ¬ err_wp.Fails)) := by
  have haccounted := accounted_run (accounted_initial _ _ _) hrun
  have hgaveUp : t.task.place = .gaveUp ↔
      ∃ err_wp : WaitpidResult, err_wp.Fails ∧ .waitpid err_wp ∈ events := by
    rw [gaveUp_run hrun]
    exact or_iff_right (by simp [initial, LaunchedTask.initial])
  constructor
  · have hsteps : AllSteps WaitedTask.step (fun _ e => e.HasEnded)
        (initial processIdentifier hasTerminationHandler hasRunLoop) events := by
      apply allSteps_of_forall
      intro e he
      cases e with
      | waitpid err_wp => exact hended err_wp he
      | handler | waitUntilExit | waiter => trivial
    have hstatus : t.StatusOk := by
      refine run_invariant_of_allSteps (fun _ _ _ he hs hstep => StatusOk.step hs he hstep)
        ?_ hsteps hrun
      intro wp_status hplace
      simp [initial, LaunchedTask.initial] at hplace
    exact handlerGoesOn haccounted hstatus
  · intro hdone
    constructor
    · -- a handler that gave up has left `running` as it was
      intro hpublished err_wp hmem hfails
      have hrunning := haccounted.consistent.running
      rw [hgaveUp.mpr ⟨err_wp, hfails, hmem⟩, hpublished.running] at hrunning
      cases hrunning
    · intro hnone
      apply published_of_finished haccounted
      cases hplace : t.task.place with
      | finished => rfl
      | gaveUp =>
        obtain ⟨err_wp, hfails, hmem⟩ := hgaveUp.mp hplace
        exact absurd hfails (hnone err_wp hmem)
      | _ =>
        rw [hplace] at hdone
        cases hdone

/-- `waitpid` is interrupted, comes too early, and then has the status of a child that a
`SIGTERM` has ended.  The client waits meanwhile. -/
theorem published_iff_terminated : ∃ t,
    run step (initial 70 true true)
      [.waitUntilExit, .handler, .waiter, .waitpid (.error EINTR), .waiter, .waitpid .zero,
        .waitpid (.pid 15), .handler, .handler, .handler, .handler, .handler, .waiter, .handler,
        .handler] = .ok t ∧
      t.waiter = .returned true ∧ t.Published := by
  obtain ⟨t, hrun, hdone, hwaiter⟩ : ∃ t,
      run step (initial 70 true true)
        [.waitUntilExit, .handler, .waiter, .waitpid (.error EINTR), .waiter, .waitpid .zero,
          .waitpid (.pid 15), .handler, .handler, .handler, .handler, .handler, .waiter, .handler,
          .handler] = .ok t ∧ t.task.place.isDone = true ∧ t.waiter = .returned true :=
    ⟨_, rfl, rfl, rfl⟩
  refine ⟨t, hrun, hwaiter, ((published_iff hrun ?_).2 hdone).mpr ?_⟩
  · simp [WaitpidResult.HasEnded, WIFSIGNALED, WSTATUS]
  · simp [WaitpidResult.Fails]

/-- `waitpid` fails with `ECHILD`.  The handler returns, and the client waits for one second
after the other, whatever happens. -/
theorem waiter_stuck_of_echild : ∃ t,
    run step (initial 70 true true)
      [.waitUntilExit, .waiter, .handler, .waitpid (.error 10)] = .ok t ∧
      t.task.place.isDone = true ∧ t.task.running = true ∧ t.semaphoreSignals = 0 ∧
      t.task.terminationHandlerCalls = 0 ∧ t.waiter = .semaphoreWait ∧
      (∀ events u, run step t events = .ok u → u = t) ∧ ¬ t.Published := by
  refine ⟨_, rfl, rfl, rfl, rfl, rfl, rfl, ?_, ?_⟩
  · intro events u hrun
    refine run_invariant (I := fun m => m = _) ?_ rfl hrun
    rintro m e n rfl hstep
    cases e with
    | waitpid err_wp | handler | waitUntilExit => cases hstep
    | waiter => exact (Except.ok.inj hstep).symm
  · intro hpublished
    cases hpublished.running

end WaitedTask

end BromiumCoreUtils
