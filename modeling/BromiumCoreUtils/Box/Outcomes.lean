import BromiumCoreUtils.Box.Linearizable
import BromiumCoreUtils.EitherErrorOrSuccess.Basic
import BromiumCoreUtils.Lib.Wrapper

/-!
# Outcomes in a box

Threads that compute put their outcomes into a box, and `takeFromBox:timeoutAtDate:description:`
waits for one.  It makes an outcome of a `nil` too: the error of a time-out.  Every other method
of the box is called as it is.

`SequentialOutcomes` is such a box for one thread, and `outcomes_linearizable` says that any number
of threads cannot tell the difference.  So a time-out has taken no outcome with it, and a call
that returns something else returns an outcome that was put, once.
-/

namespace BromiumCoreUtils

open Machine Linearizability

/-- `ETIMEDOUT`. -/
def ETIMEDOUT : Int := 60

/-- A method, with its arguments. -/
inductive OutcomeMethod (T : Type) where
  | box (method : BoxMethod (BRUEitherErrorOrSuccess T))
  | takeFromBox (date : String) (description : Option String)

namespace OutcomeMethod

variable {T : Type}

/-- The error of `takeFromBox:timeoutAtDate:description:`. -/
def timeoutError (date : String) (description : Option String) : NSError where
  domain := NSPOSIXErrorDomain
  code := ETIMEDOUT
  userInfo := [(BRUErrorReasonKey, description.getD "a computation" ++ " timed out"),
    ("timeout-date", date)]

/-- `takeFromBox:timeoutAtDate:description:`, after `tryTakeUntil:` has returned. -/
def takenFromBox (date : String) (description : Option String) :
    Option (BRUEitherErrorOrSuccess T) → Exec OutcomeAssertion (BRUEitherErrorOrSuccess T)
  | some obj => pure obj
  | none => BRUEitherErrorOrSuccess.newWithError (some (timeoutError date description))

/-- The method of the box that is called. -/
def boxMethod : OutcomeMethod T → BoxMethod (BRUEitherErrorOrSuccess T)
  | .box method => method
  | .takeFromBox _ _ => .tryTakeUntil

/-- What is returned, for what the method of the box returns. -/
def result : OutcomeMethod T → BoxResult (BRUEitherErrorOrSuccess T) →
    BoxResult (BRUEitherErrorOrSuccess T)
  | .takeFromBox date description, .object obj =>
    .object (takenFromBox date description obj).toOption
  | _, result => result

/-- The assertions of the constructor hold. -/
theorem takenFromBox_eq_ok (date : String) (description : Option String)
    (obj : Option (BRUEitherErrorOrSuccess T)) :
    takenFromBox date description obj =
      .ok (obj.getD (.ofError (timeoutError date description))) := by
  cases obj with
  | none => rfl
  | some obj => rfl

/-- So something is returned that is not `nil`. -/
theorem result_takeFromBox (date : String) (description : Option String)
    (obj : Option (BRUEitherErrorOrSuccess T)) :
    (takeFromBox date description).result (.object obj) =
      .object (some (obj.getD (.ofError (timeoutError date description)))) := by
  rw [result, takenFromBox_eq_ok]
  rfl

end OutcomeMethod

/-- The methods, for one thread. -/
inductive SequentialOutcomes {T : Type} : Option (BRUEitherErrorOrSuccess T) → OutcomeMethod T →
    BoxResult (BRUEitherErrorOrSuccess T) → Option (BRUEitherErrorOrSuccess T) → Prop where
  | box {value value' : Option (BRUEitherErrorOrSuccess T)}
      {method : BoxMethod (BRUEitherErrorOrSuccess T)}
      {result : BoxResult (BRUEitherErrorOrSuccess T)}
      (hbox : SequentialBox value method result value') :
      SequentialOutcomes value (.box method) result value'
  | takeFromBox (outcome : BRUEitherErrorOrSuccess T) (date : String)
      (description : Option String) :
      SequentialOutcomes (some outcome) (.takeFromBox date description) (.object (some outcome))
        none
  | timedOut (date : String) (description : Option String) :
      SequentialOutcomes none (.takeFromBox date description)
        (.object (some (.ofError (OutcomeMethod.timeoutError date description)))) none

theorem SequentialOutcomes.of_box {T : Type} {value value' : Option (BRUEitherErrorOrSuccess T)}
    {method : OutcomeMethod T} {result : BoxResult (BRUEitherErrorOrSuccess T)}
    (h : SequentialBox value method.boxMethod result value') :
    SequentialOutcomes value method (method.result result) value' := by
  cases method with
  | box method => exact .box h
  | takeFromBox date description =>
    cases h with
    | tryTakeUntil outcome =>
      rw [OutcomeMethod.result_takeFromBox]
      exact .takeFromBox outcome date description
    | tryTakeUntilEmpty =>
      rw [OutcomeMethod.result_takeFromBox]
      exact .timedOut date description

/-- The threads of a box of outcomes, with the methods that they are in. -/
structure OutcomeThreads (Th T : Type) where
  threads : BoxThreads Th (BRUEitherErrorOrSuccess T)
  methods : Th → Option (OutcomeMethod T)

namespace OutcomeThreads

variable {Th T : Type} [DecidableEq Th]

def initWithValue (value : Option (BRUEitherErrorOrSuccess T)) : OutcomeThreads Th T where
  threads := .initWithValue value
  methods := fun _ => none

/-- What happens next: a step of a thread in the box, or a thread calls
`takeFromBox:timeoutAtDate:description:`. -/
inductive Event (Th T : Type) where
  | box (event : BoxThreads.Event Th (BRUEitherErrorOrSuccess T))
  | takeFromBox (t : Th) (date : String) (description : Option String)

/-- The step in the box. -/
def Event.inBox : Event Th T → BoxThreads.Event Th (BRUEitherErrorOrSuccess T)
  | .box event => event
  | .takeFromBox t _ _ => .call t .tryTakeUntil

/-- Which method a thread is in after the event. -/
def Event.methods (methods : Th → Option (OutcomeMethod T)) :
    Event Th T → Th → Option (OutcomeMethod T)
  | .box (.call t method) => Function.update methods t (some (.box method))
  | .box (.unlock t) => Function.update methods t none
  | .box _ => methods
  | .takeFromBox t date description =>
    Function.update methods t (some (.takeFromBox date description))

/-- Take one step. -/
def step (s : OutcomeThreads Th T) (e : Event Th T) : Exec Assertion (OutcomeThreads Th T) := do
  let threads ← s.threads.step e.inBox
  pure { threads := threads, methods := e.methods s.methods }

/-- What is seen of a step from outside. -/
def action (s : OutcomeThreads Th T) :
    Event Th T → Option (Action Th (OutcomeMethod T) (BoxResult (BRUEitherErrorOrSuccess T)))
  | .box (.call t method) => some (.call t (.box method))
  | .box (.unlock t) =>
    match s.threads.threads t, s.methods t with
    | .unlocking _ result, some method => some (.answer t (method.result result))
    | _, _ => none
  | .box _ => none
  | .takeFromBox t date description => some (.call t (.takeFromBox date description))

/-- A thread that is in the box is in a method. -/
def Called (s : OutcomeThreads Th T) : Prop :=
  ∀ t, s.threads.threads t ≠ .outside → (s.methods t).isSome = true

variable {s s' : OutcomeThreads Th T} {e : Event Th T}

omit [DecidableEq Th] in
theorem Called.isSome (h : Called s) {t : Th}
    {place : Place (BRUEitherErrorOrSuccess T)} (hplace : s.threads.threads t = place)
    (hout : place ≠ .outside) : ∃ method, s.methods t = some method := by
  refine Option.isSome_iff_exists.mp (h t ?_)
  rw [hplace]
  exact hout

/-- A thread only comes into the box with a call. -/
theorem outside_of_step {s s' : BoxThreads Th (BRUEitherErrorOrSuccess T)}
    {e : BoxThreads.Event Th (BRUEitherErrorOrSuccess T)} {t : Th} (hstep : s.step e = .ok s')
    (hplace : s.threads t = .outside) (hcall : ∀ method, e ≠ .call t method) :
    s'.threads t = .outside := by
  have hmoves {u : Th} {place : Place (BRUEitherErrorOrSuccess T)} (hu : s.threads u ≠ .outside) :
      (s.moveTo u place).threads t = .outside := by
    rw [BoxThreads.moveTo_other]
    · exact hplace
    · rintro rfl
      exact hu hplace
  cases BoxThreads.step_transition hstep with
  | @call u method _ =>
    by_cases hu : t = u
    · subst hu
      exact absurd rfl (hcall method)
    · rw [BoxThreads.moveTo_other hu]
      exact hplace
  | enter _ hat | signalled _ hat | timedOut _ hat | proceed hat _ | wait hat _ | giveUp hat _
  | store hat | wake hat => exact hmoves (by simp [hat])
  | @broadcast u _ _ hat =>
    by_cases hu : t = u
    · subst hu
      rw [hplace] at hat
      cases hat
    · rw [BoxThreads.moveTo_other hu]
      simp [BoxThreads.broadcast, hplace]
  | @unlock u method result hat => exact hmoves (by simp [hat])
  | timeOut hat _ =>
    rcases hat with hat | ⟨_, hat⟩
    · exact hmoves (by simp [hat])
    · exact hmoves (by simp [hat])

theorem step_eq_ok :
    step s e = .ok s' ↔
      ∃ threads, s.threads.step e.inBox = .ok threads ∧
        { threads := threads, methods := e.methods s.methods } = s' := by
  simp [step]

theorem step_called (h : Called s) (hstep : step s e = .ok s') : Called s' := by
  obtain ⟨threads, hbox, rfl⟩ := step_eq_ok.mp hstep
  intro u hout
  have hbefore (hcall : ∀ method, e.inBox ≠ .call u method) : (s.methods u).isSome = true :=
    h u fun hplace => hout (outside_of_step hbox hplace hcall)
  cases e with
  | takeFromBox t date description =>
    by_cases hu : u = t
    · simp [Event.methods, hu]
    · simp only [Event.methods, Function.update_of_ne hu]
      exact hbefore (by simp [Event.inBox, Ne.symm hu])
  | box event =>
    cases event with
    | call t method =>
      by_cases hu : u = t
      · simp [Event.methods, hu]
      · simp only [Event.methods, Function.update_of_ne hu]
        exact hbefore (by simp [Event.inBox, Ne.symm hu])
    | unlock t =>
      by_cases hu : u = t
      · -- the thread has left the box
        subst hu
        cases BoxThreads.step_transition hbox with
        | unlock _ => exact absurd (BoxThreads.moveTo_same) hout
      · simp only [Event.methods, Function.update_of_ne hu]
        exact hbefore (by simp [Event.inBox])
    | lock t | test t | store t | broadcast t | wake t | timeOut t =>
      exact hbefore (by simp [Event.inBox])

variable {h : List (Action Th (BoxMethod (BRUEitherErrorOrSuccess T))
  (BoxResult (BRUEitherErrorOrSuccess T)))}
variable {h' : List (Action Th (OutcomeMethod T) (BoxResult (BRUEitherErrorOrSuccess T)))}

/-- What the threads see of a step is what the box sees, from around the box. -/
theorem step_wraps (hcalled : Called s)
    (hw : Wraps OutcomeMethod.boxMethod OutcomeMethod.result h h' s.methods)
    (hstep : step s e = .ok s') :
    Wraps OutcomeMethod.boxMethod OutcomeMethod.result
      (h ++ (BoxThreads.action s.threads e.inBox).toList) (h' ++ (action s e).toList)
      s'.methods := by
  obtain ⟨threads, hbox, rfl⟩ := step_eq_ok.mp hstep
  cases e with
  | takeFromBox t date description => exact .call hw t (.takeFromBox date description)
  | box event =>
    cases event with
    | call t method => exact .call hw t (.box method)
    | unlock t =>
      cases BoxThreads.step_transition hbox with
      | @unlock _ boxMethod result hplace =>
        obtain ⟨method, hmethod⟩ := hcalled.isSome hplace (by simp)
        simp only [BoxThreads.action, action, Event.inBox, Event.methods, hplace, hmethod]
        exact .answer hw hmethod result
    | lock t | test t | store t | broadcast t | wake t | timeOut t =>
      simpa [BoxThreads.action, action, Event.inBox, Event.methods] using hw

/-- A run of the threads is a run in the box. -/
theorem run_wraps {events : List (Event Th T)} (hcalled : Called s)
    (hw : Wraps OutcomeMethod.boxMethod OutcomeMethod.result h h' s.methods)
    (hrun : run step s events = .ok s') :
    run BoxThreads.step s.threads (events.map Event.inBox) = .ok s'.threads ∧
      Wraps OutcomeMethod.boxMethod OutcomeMethod.result
        (h ++ history BoxThreads.step BoxThreads.action s.threads (events.map Event.inBox))
        (h' ++ history step action s events) s'.methods := by
  induction events generalizing s h h' with
  | nil =>
    obtain rfl : s = s' := by simpa using hrun
    exact ⟨rfl, by simpa [history, emitted] using hw⟩
  | cons e events ih =>
    obtain ⟨m, hm, hrest⟩ := run_cons_eq_ok.mp hrun
    obtain ⟨hbox, hwraps⟩ := ih (step_called hcalled hm) (step_wraps hcalled hw hm) hrest
    obtain ⟨threads, hthreads, hmeq⟩ := step_eq_ok.mp hm
    obtain rfl : threads = m.threads := by rw [← hmeq]
    refine ⟨?_, ?_⟩
    · rw [List.map_cons]
      exact run_cons_eq_ok.mpr ⟨_, hthreads, hbox⟩
    · simpa [history, emitted, hthreads, hm] using hwraps

/-- In every run the calls can be put into one order that a box with one thread answers in the
same way, and that keeps every call that was answered before another began in front of it. -/
theorem outcomes_linearizable {value : Option (BRUEitherErrorOrSuccess T)}
    {events : List (Event Th T)}
    (hrun : run step (initWithValue value : OutcomeThreads Th T) events = .ok s) :
    ∃ order, Linearization SequentialOutcomes value
      (history step action (initWithValue value) events) order := by
  have hcalled : Called (initWithValue value : OutcomeThreads Th T) := by
    intro t hout
    exact absurd rfl hout
  obtain ⟨hbox, hwraps⟩ := run_wraps hcalled .nil hrun
  obtain ⟨order, horder⟩ :=
    BoxThreads.simulates_atomic.linearizable (BoxThreads.inStep_initWithValue value) hbox
  exact Linearization.wraps (fun _ _ _ _ => SequentialOutcomes.of_box) hwraps horder

/-- A call times out while the outcome that it waits for is put.  The outcome stays in the box. -/
theorem outcomes_linearizable_timeOut : ∃ s : OutcomeThreads Nat Nat,
    run step (initWithValue none)
        [.takeFromBox 0 "2016-06-01" (some "the build"), .box (.lock 0), .box (.test 0),
          .box (.call 1 (.put (.ofObject 7))), .box (.lock 1), .box (.test 1), .box (.store 1),
          .box (.timeOut 0), .box (.broadcast 1), .box (.unlock 1), .box (.lock 0),
          .box (.unlock 0)] = .ok s ∧
      s.threads.box.value = some (.ofObject 7) ∧
      ∃ order, Linearization SequentialOutcomes none
        [.call 0 (.takeFromBox "2016-06-01" (some "the build")),
          .call 1 (.box (.put (.ofObject 7))), .answer 1 .void,
          .answer 0 (.object (some (.ofError {
            domain := "NSPOSIXErrorDomain"
            code := 60
            userInfo := [("reason", "the build timed out"), ("timeout-date", "2016-06-01")] })))]
        order := by
  obtain ⟨s, hrun, hbox⟩ : ∃ s : OutcomeThreads Nat Nat,
      run step (initWithValue none)
          [.takeFromBox 0 "2016-06-01" (some "the build"), .box (.lock 0), .box (.test 0),
            .box (.call 1 (.put (.ofObject 7))), .box (.lock 1), .box (.test 1), .box (.store 1),
            .box (.timeOut 0), .box (.broadcast 1), .box (.unlock 1), .box (.lock 0),
            .box (.unlock 0)] = .ok s ∧
        s.threads.box.value = some (.ofObject 7) :=
    ⟨_, rfl, rfl⟩
  exact ⟨s, hrun, hbox, outcomes_linearizable hrun⟩

end OutcomeThreads

end BromiumCoreUtils
