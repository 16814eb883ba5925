import BromiumCoreUtils.Box.Buffer
import BromiumCoreUtils.Lib.Linearizability

/-!
# A box is linearizable

`SequentialBox` is a box that one thread uses: what each method does to the value and what it
returns.  A method that has no answer in a state waits for another state.

A method of the box takes effect when it stores, or when its test lets it give up.  A
`tryTakeUntil:` that timed out takes effect in the past, when it saw the box empty before its
last wait: by the time it returns `nil` the box may be full, and other calls may have been
answered.
-/

namespace BromiumCoreUtils

open Machine Linearizability

/-- The methods of a box that one thread uses. -/
inductive SequentialBox {T : Type} : Option T → BoxMethod T → BoxResult T → Option T → Prop where
  | put (value : T) : SequentialBox none (.put value) .void (some value)
  | tryPut (value : T) : SequentialBox none (.tryPut value) (.bool true) (some value)
  | tryPutFull (value old : T) :
      SequentialBox (some old) (.tryPut value) (.bool false) (some old)
  | take (value : T) : SequentialBox (some value) .take (.object (some value)) none
  | tryTakeUntil (value : T) :
      SequentialBox (some value) .tryTakeUntil (.object (some value)) none
  | tryTakeUntilEmpty : SequentialBox none .tryTakeUntil (.object none) none
  | tryTake (value : T) : SequentialBox (some value) .tryTake (.object (some value)) none
  | tryTakeEmpty : SequentialBox none .tryTake (.object none) none
  | swapWithValue (newValue old : T) :
      SequentialBox (some old) (.swapWithValue newValue) (.object (some old)) (some newValue)
  | trySwapWithValue (newValue : T) (old : Option T) :
      SequentialBox old (.trySwapWithValue newValue) (.object old) (some newValue)
  | isEmpty (value : Option T) : SequentialBox value .isEmpty (.bool value.isNone) value

namespace BoxMethod

variable {T : Type} {box : BRUConcurrentBox T} {method : BoxMethod T}

/-- A method that may go on does what it does alone. -/
theorem sequential_store (h : method.test box = .proceed) :
    SequentialBox box.value method (method.store box).1 (method.store box).2.value := by
  cases hbox : box.value with
  | none =>
    cases method with
    | put value => exact .put value
    | tryPut value => exact .tryPut value
    | trySwapWithValue newValue =>
      simp only [store, hbox]
      exact .trySwapWithValue newValue none
    | take | tryTakeUntil | tryTake | swapWithValue _ | isEmpty => simp [test, hbox] at h
  | some old =>
    cases method with
    | take =>
      simp only [store, hbox]
      exact .take old
    | tryTakeUntil =>
      simp only [store, hbox]
      exact .tryTakeUntil old
    | tryTake =>
      simp only [store, hbox]
      exact .tryTake old
    | swapWithValue newValue =>
      simp only [store, hbox]
      exact .swapWithValue newValue old
    | trySwapWithValue newValue =>
      simp only [store, hbox]
      exact .trySwapWithValue newValue (some old)
    | put _ | tryPut _ | isEmpty => simp [test, hbox] at h

/-- A method that gives up leaves the value as it is. -/
theorem sequential_giveUp {result : BoxResult T} (h : method.test box = .giveUp result) :
    SequentialBox box.value method result box.value := by
  cases hbox : box.value with
  | none =>
    cases method with
    | tryTake =>
      obtain rfl : BoxResult.object none = result := by simpa [test, hbox] using h
      exact .tryTakeEmpty
    | isEmpty =>
      obtain rfl : BoxResult.bool true = result := by simpa [test, hbox] using h
      exact .isEmpty none
    | put _ | tryPut _ | take | tryTakeUntil | swapWithValue _ | trySwapWithValue _ =>
      simp [test, hbox] at h
  | some old =>
    cases method with
    | tryPut value =>
      obtain rfl : BoxResult.bool false = result := by simpa [test, hbox] using h
      exact .tryPutFull value old
    | isEmpty =>
      obtain rfl : BoxResult.bool false = result := by simpa [test, hbox] using h
      exact .isEmpty (some old)
    | put _ | take | tryTakeUntil | tryTake | swapWithValue _ | trySwapWithValue _ =>
      simp [test, hbox] at h

end BoxMethod

/-- The phase of the call of a thread that is there, while the box has the value. -/
def Place.InPhase {T : Type} (value : Option T) :
    Place T → Phase (Option T) (BoxMethod T) (BoxResult T) → Prop
  | .outside, phase => phase = .idle
  | .entering method, phase => ∃ seen, phase = .pending method seen ∧ seen value
  | .testing method, phase => ∃ seen, phase = .pending method seen ∧ seen value
  | .storing method, phase => ∃ seen, phase = .pending method seen ∧ seen value
  | .broadcasting method result, phase => phase = .answered method result
  -- the assertion of `take` fails when this is its `nil`
  | .unlocking method result, phase =>
    phase = .answered method result ∨ method = .take ∧ result.isNil = true
  | .asleep method, phase =>
    ∃ seen, phase = .pending method seen ∧ seen value ∧
      (method.waitsUntilDate = true → seen none)
  | .notified method signalled, phase =>
    ∃ seen, phase = .pending method seen ∧ seen value ∧
      (method.waitsUntilDate = true → seen none) ∧
      (signalled = false → method.waitsUntilDate = true)

/-- Another thread stores a value. -/
theorem Place.InPhase.see {T : Type} {value : Option T} {place : Place T}
    {phase : Phase (Option T) (BoxMethod T) (BoxResult T)} (h : place.InPhase value phase)
    (newValue : Option T) : place.InPhase newValue (phase.see newValue) := by
  cases place with
  | outside =>
    obtain rfl := h
    rfl
  | entering method | testing method | storing method =>
    obtain ⟨seen, rfl, _⟩ := h
    exact ⟨_, rfl, Or.inr rfl⟩
  | broadcasting method result =>
    obtain rfl := h
    rfl
  | unlocking method result =>
    rcases h with rfl | hnil
    · exact Or.inl rfl
    · exact Or.inr hnil
  | asleep method =>
    obtain ⟨seen, rfl, _, hdate⟩ := h
    exact ⟨_, rfl, Or.inr rfl, fun hwaits => Or.inl (hdate hwaits)⟩
  | notified method signalled =>
    obtain ⟨seen, rfl, _, hdate, hsignalled⟩ := h
    exact ⟨_, rfl, Or.inr rfl, fun hwaits => Or.inl (hdate hwaits), hsignalled⟩

namespace BoxThreads

variable {Th T : Type} [DecidableEq Th]

/-- What is seen of a step from outside. -/
def action (s : BoxThreads Th T) : Event Th T → Option (Action Th (BoxMethod T) (BoxResult T))
  | .call t method => some (.call t method)
  | .unlock t =>
    match s.threads t with
    | .unlocking _ result => some (.answer t result)
    | _ => none
  | _ => none

/-- The box and the atomic box. -/
structure InStep (s : BoxThreads Th T)
    (a : Atomic Th (Option T) (BoxMethod T) (BoxResult T)) : Prop where
  state : a.state = s.box.value
  locked : Locked s
  ready : Ready s
  phases : ∀ t, (s.threads t).InPhase s.box.value (a.calls t)

variable {s s' : BoxThreads Th T} {e : Event Th T} {t : Th} {place : Place T}
variable {a : Atomic Th (Option T) (BoxMethod T) (BoxResult T)}
variable {phase : Phase (Option T) (BoxMethod T) (BoxResult T)}

omit [DecidableEq Th] in
theorem InStep.phase_at (h : InStep s a) (hplace : s.threads t = place) :
    place.InPhase s.box.value (a.calls t) := by
  rw [← hplace]
  exact h.phases t

/-- A thread goes on, and its call with it. -/
theorem InStep.moves (h : InStep s a) (hphase : place.InPhase s.box.value phase) (u : Th) :
    ((s.moveTo t place).threads u).InPhase s.box.value (Function.update a.calls t phase u) := by
  by_cases hu : u = t
  · rw [hu, moveTo_same, Function.update_self]
    exact hphase
  · rw [moveTo_other hu, Function.update_of_ne hu]
    exact h.phases u

/-- A thread goes on within its call. -/
theorem InStep.stays (h : InStep s a) (hphase : place.InPhase s.box.value (a.calls t)) (u : Th) :
    ((s.moveTo t place).threads u).InPhase s.box.value (a.calls u) := by
  have hmoves := h.moves (t := t) hphase u
  rwa [Function.update_eq_self] at hmoves

omit [DecidableEq Th] in
/-- A broadcast changes nothing for the calls. -/
theorem InStep.broadcast (h : InStep s a) (u : Th) :
    (s.broadcast.threads u).InPhase s.box.value (a.calls u) := by
  have hphase := h.phases u
  unfold BoxThreads.broadcast
  cases hplace : s.threads u with
  | asleep method =>
    rw [hplace] at hphase
    obtain ⟨seen, hpending, hseen, hdate⟩ := hphase
    simp only [hplace]
    exact ⟨seen, hpending, hseen, hdate, by simp⟩
  | _ =>
    rw [hplace] at hphase
    simpa only [hplace] using hphase

/-- `take` returns no `nil`. -/
theorem assertThing_of_unlock {method : BoxMethod T} {result : BoxResult T}
    (hplace : s.threads t = .unlocking method result) (hstep : step s (.unlock t) = .ok s') :
    (method.assertsThing && result.isNil) = false := by
  simp only [step, hplace, bind_eq_ok, assertThat_eq_ok] at hstep
  obtain ⟨_, hasserts, _⟩ := hstep
  exact hasserts

/-- The thread that stores takes effect, and the others see what it stored. -/
theorem InStep.store (h : InStep s a) {method : BoxMethod T}
    (hplace : s.threads t = .storing method) :
    ∃ a', a.Step SequentialBox none a' ∧ a'.state = (method.store s.box).2.value ∧
      ∀ u, ((s.moveTo t (.broadcasting method (method.store s.box).1)).threads u).InPhase
        (method.store s.box).2.value (a'.calls u) := by
  obtain ⟨seen, hpending, _⟩ := h.phase_at hplace
  have hnext := BoxMethod.sequential_store (h.ready.storing t method hplace)
  rw [← h.state] at hnext
  refine ⟨_, .effect hpending hnext, rfl, ?_⟩
  intro u
  by_cases hu : u = t
  · rw [hu, moveTo_same]
    simp only [Function.update_self]
    rfl
  · rw [moveTo_other hu]
    simp only [Function.update_of_ne hu]
    exact (h.phases u).see _

/-- A call that takes effect without a change takes effect now or in the past. -/
theorem InStep.observe (h : InStep s a) {method : BoxMethod T} {result : BoxResult T}
    {seen : Option T → Prop} {value : Option T} (hpending : a.calls t = .pending method seen)
    (hseen : seen value) (hnext : SequentialBox value method result value) :
    ∃ a', a.Step SequentialBox none a' ∧ a'.state = s.box.value ∧
      ∀ u, ((s.moveTo t (.unlocking method result)).threads u).InPhase s.box.value
        (a'.calls u) :=
  ⟨_, .observe hpending hseen hnext, h.state, h.moves (Or.inl rfl)⟩

/-- The date of a `take` or of a `tryTakeUntil:` has come. -/
theorem InStep.timedOut (h : InStep s a) {method : BoxMethod T}
    (hplace : s.threads t = .notified method false) :
    ∃ a', a.Step SequentialBox none a' ∧ a'.state = s.box.value ∧
      ∀ u, ((s.moveTo t (.unlocking method (.object none))).threads u).InPhase s.box.value
        (a'.calls u) := by
  obtain ⟨seen, hpending, _, hdate, hwaits⟩ := h.phase_at hplace
  have hwaits := hwaits rfl
  cases method with
  | tryTakeUntil => exact h.observe hpending (hdate hwaits) .tryTakeUntilEmpty
  | take => exact ⟨a, .stutter, h.state, h.stays (Or.inr ⟨rfl, rfl⟩)⟩
  | put _ | tryPut _ | tryTake | swapWithValue _ | trySwapWithValue _ | isEmpty =>
    simp [BoxMethod.waitsUntilDate] at hwaits

/-- Every step of a thread is one of the atomic box. -/
theorem InStep.step (h : InStep s a) (hstep : step s e = .ok s') :
    ∃ a', a.Step SequentialBox (action s e) a' ∧ InStep s' a' := by
  have hlocked := step_locked h.locked hstep
  have hready := step_ready h.locked h.ready hstep
  cases step_transition hstep with
  | @call t method hplace =>
    have hidle : a.calls t = .idle := h.phase_at hplace
    refine ⟨_, .call hidle, h.state, hlocked, hready, h.moves ⟨_, rfl, ?_⟩⟩
    exact h.state.symm
  | enter _ hplace =>
    obtain ⟨seen, hpending, hseen⟩ := h.phase_at hplace
    exact ⟨a, .stutter, h.state, hlocked, hready, h.stays ⟨seen, hpending, hseen⟩⟩
  | signalled _ hplace =>
    obtain ⟨seen, hpending, hseen, _⟩ := h.phase_at hplace
    exact ⟨a, .stutter, h.state, hlocked, hready, h.stays ⟨seen, hpending, hseen⟩⟩
  | timedOut _ hplace =>
    obtain ⟨a', hstep', hstate, hphases⟩ := h.timedOut hplace
    exact ⟨a', hstep', hstate, hlocked, hready, hphases⟩
  | proceed hplace _ =>
    obtain ⟨seen, hpending, hseen⟩ := h.phase_at hplace
    exact ⟨a, .stutter, h.state, hlocked, hready, h.stays ⟨seen, hpending, hseen⟩⟩
  | wait hplace htest =>
    obtain ⟨seen, hpending, hseen⟩ := h.phase_at hplace
    refine ⟨a, .stutter, h.state, hlocked, hready, h.stays ⟨seen, hpending, hseen, ?_⟩⟩
    intro hwaits
    rwa [BoxMethod.value_of_wait htest hwaits] at hseen
  | giveUp hplace htest =>
    obtain ⟨seen, hpending, hseen⟩ := h.phase_at hplace
    obtain ⟨a', hstep', hstate, hphases⟩ :=
      h.observe hpending hseen (BoxMethod.sequential_giveUp htest)
    exact ⟨a', hstep', hstate, hlocked, hready, hphases⟩
  | store hplace =>
    obtain ⟨a', hstep', hstate, hphases⟩ := h.store hplace
    exact ⟨a', hstep', hstate, hlocked, hready, hphases⟩
  | @broadcast t method result hplace =>
    have hphase := h.phase_at hplace
    refine ⟨a, .stutter, h.state, hlocked, hready, ?_⟩
    intro u
    by_cases hu : u = t
    · rw [hu, moveTo_same]
      exact Or.inl hphase
    · rw [moveTo_other hu]
      exact h.broadcast u
  | @unlock t method result hplace =>
    have hanswered : a.calls t = .answered method result := by
      rcases h.phase_at hplace with hanswered | ⟨rfl, hnil⟩
      · exact hanswered
      · have hasserts := assertThing_of_unlock hplace hstep
        simp [BoxMethod.assertsThing, hnil] at hasserts
    simp only [action, hplace]
    exact ⟨_, .answer hanswered, h.state, hlocked, hready, h.moves rfl⟩
  | wake hplace =>
    obtain ⟨seen, hpending, hseen, hdate⟩ := h.phase_at hplace
    exact ⟨a, .stutter, h.state, hlocked, hready,
      h.stays ⟨seen, hpending, hseen, hdate, by simp⟩⟩
  | @timeOut t method hplace hwaits =>
    have hphase : ∃ seen, a.calls t = .pending method seen ∧ seen s.box.value ∧
        (method.waitsUntilDate = true → seen none) := by
      rcases hplace with hplace | ⟨signalled, hplace⟩
      · exact h.phase_at hplace
      · obtain ⟨seen, hpending, hseen, hdate, _⟩ := h.phase_at hplace
        exact ⟨seen, hpending, hseen, hdate⟩
    obtain ⟨seen, hpending, hseen, hdate⟩ := hphase
    exact ⟨a, .stutter, h.state, hlocked, hready,
      h.stays ⟨seen, hpending, hseen, hdate, fun _ => hwaits⟩⟩

/-- A box behaves like the atomic box. -/
theorem simulates_atomic :
    Simulates (step : BoxThreads Th T → Event Th T → Exec Assertion (BoxThreads Th T)) action
      SequentialBox InStep where
  step _ _ _ _ h hstep := h.step hstep

omit [DecidableEq Th] in
theorem inStep_initWithValue (value : Option T) :
    InStep (initWithValue value : BoxThreads Th T) (.init value) where
  state := rfl
  locked := locked_init value
  ready := { storing := by simp [initWithValue], broadcasting := by simp [initWithValue] }
  phases _ := rfl

/-- In every run the calls of the methods can be put into one order that a box with one thread
answers in the same way, and that keeps every call that was answered before another began in
front of it. -/
theorem box_linearizable {value : Option T} {events : List (Event Th T)}
    (hrun : run step (initWithValue value : BoxThreads Th T) events = .ok s) :
    ∃ order, Linearization SequentialBox value (history step action (initWithValue value) events)
      order :=
  simulates_atomic.linearizable (inStep_initWithValue value) hrun

/-- A `tryTakeUntil:` returns `nil` after a `put:` that began and was answered while it waited. -/
theorem box_linearizable_timeOut : ∃ s : BoxThreads Nat Nat,
    run step (initWithValue none)
        [.call 0 .tryTakeUntil, .lock 0, .test 0, .call 1 (.put 7), .lock 1, .test 1, .store 1,
          .timeOut 0, .broadcast 1, .unlock 1, .lock 0, .unlock 0] = .ok s ∧
      s.box.value = some 7 ∧
      ∃ order, Linearization SequentialBox none
        [.call 0 .tryTakeUntil, .call 1 (.put 7), .answer 1 .void, .answer 0 (.object none)]
        order := by
  obtain ⟨s, hrun, hbox⟩ : ∃ s : BoxThreads Nat Nat,
      run step (initWithValue none)
          [.call 0 .tryTakeUntil, .lock 0, .test 0, .call 1 (.put 7), .lock 1, .test 1, .store 1,
            .timeOut 0, .broadcast 1, .unlock 1, .lock 0, .unlock 0] = .ok s ∧
        s.box.value = some 7 :=
    ⟨_, rfl, rfl⟩
  exact ⟨s, hrun, hbox, box_linearizable hrun⟩

end BoxThreads

end BromiumCoreUtils
