import BromiumCoreUtils.ConcurrentVariable.Basic
import BromiumCoreUtils.Lib.Linearizability

/-!
# A variable is linearizable

`SequentialVariable` is a variable that one thread uses.  A method takes effect in its block: a
read when it reads, the others when they write.  The value that a `modifyBlock` got is still the
value of the variable when its result is written, because the queue is serial.
-/

namespace BromiumCoreUtils

open Machine Linearizability

/-- The methods of a variable that one thread uses. -/
inductive SequentialVariable {T : Type} : T → VariableMethod T → Option T → T → Prop where
  | readVariable (value : T) : SequentialVariable value .readVariable (some value) value
  | writeVariableWithValue (value newValue : T) :
      SequentialVariable value (.writeVariableWithValue newValue) none newValue
  | swapVariableWithValue (value newValue : T) :
      SequentialVariable value (.swapVariableWithValue newValue) (some value) newValue
  | modifyVariableWithBlock {value newValue : T} {modifyBlock : T → Option T}
      (hblock : modifyBlock value = some newValue) :
      SequentialVariable value (.modifyVariableWithBlock modifyBlock) (some value) newValue

/-- What the block of a method makes of a value is what the method writes. -/
theorem VariableMethod.sequential_modified {T : Type} {method : VariableMethod T}
    {oldValue newValue : T} (h : method.modified oldValue = .ok newValue) :
    SequentialVariable oldValue method (some oldValue) newValue := by
  cases method with
  | readVariable => cases h
  | writeVariableWithValue _ => cases h
  | swapVariableWithValue value =>
    obtain rfl : value = newValue := by simpa [modified] using h
    exact .swapVariableWithValue oldValue value
  | modifyVariableWithBlock modifyBlock =>
    simp only [modified] at h
    split at h
    · rename_i value hblock
      obtain rfl : value = newValue := by simpa using h
      exact .modifyVariableWithBlock hblock
    · cases h

/-- The phase of the call of a thread that is there, while the variable has the value. -/
def VariablePlace.InPhase {T : Type} (currentValue : T) :
    VariablePlace T → Phase T (VariableMethod T) (Option T) → Prop
  | .outside, phase => phase = .idle
  | .entering method, phase => ∃ seen, phase = .pending method seen
  | .inBlock method, phase => ∃ seen, phase = .pending method seen
  | .modifying method oldValue, phase =>
    (∃ seen, phase = .pending method seen) ∧ oldValue = currentValue
  | .storing method oldValue newValue, phase =>
    (∃ seen, phase = .pending method seen) ∧ oldValue = currentValue ∧
      SequentialVariable oldValue method (some oldValue) newValue
  | .leaving method result, phase => phase = .answered method result
  | .returning method result, phase => phase = .answered method result

/-- Another thread writes.  A thread that is not on the queue remembers no value. -/
theorem VariablePlace.InPhase.see {T : Type} {currentValue : T} {place : VariablePlace T}
    {phase : Phase T (VariableMethod T) (Option T)} (h : place.InPhase currentValue phase)
    (hqueue : place.onQueue = false) (newValue : T) :
    place.InPhase newValue (phase.see newValue) := by
  cases place with
  | outside =>
    obtain rfl := h
    rfl
  | entering method =>
    obtain ⟨seen, rfl⟩ := h
    exact ⟨_, rfl⟩
  | returning method result =>
    obtain rfl := h
    rfl
  | inBlock | modifying | storing | leaving => cases hqueue

namespace BRUConcurrentVariable

variable {Th T : Type} [DecidableEq Th]

/-- What is seen of a step from outside. -/
def action (s : BRUConcurrentVariable Th T) :
    Event Th T → Option (Action Th (VariableMethod T) (Option T))
  | .call t method => some (.call t method)
  | .returns t =>
    match s.threads t with
    | .returning _ result => some (.answer t result)
    | _ => none
  | .enter _ | .advance _ | .leave _ => none

/-- The queue is serial. -/
def Serial (s : BRUConcurrentVariable Th T) : Prop :=
  ∀ t, (s.threads t).onQueue = true → s.syncQ = some t

/-- The variable and the atomic variable. -/
structure InStep (s : BRUConcurrentVariable Th T)
    (a : Atomic Th T (VariableMethod T) (Option T)) : Prop where
  state : a.state = s.currentValue
  serial : s.Serial
  phases : ∀ t, (s.threads t).InPhase s.currentValue (a.calls t)

variable {s s' : BRUConcurrentVariable Th T} {e : Event Th T} {t u : Th}
variable {place : VariablePlace T} {a : Atomic Th T (VariableMethod T) (Option T)}
variable {phase : Phase T (VariableMethod T) (Option T)}

theorem threads_moveTo_self : (s.moveTo t place).threads t = place := by
  simp [BRUConcurrentVariable.moveTo]

theorem threads_moveTo_of_ne (h : u ≠ t) : (s.moveTo t place).threads u = s.threads u := by
  simp [BRUConcurrentVariable.moveTo, h]

/-- A thread goes on, on the queue only if it was there. -/
theorem Serial.move (h : s.Serial)
    (hqueue : place.onQueue = true → (s.threads t).onQueue = true) :
    (s.moveTo t place).Serial := by
  intro u hu
  by_cases heq : u = t
  · subst heq
    rw [threads_moveTo_self] at hu
    exact h u (hqueue hu)
  · rw [threads_moveTo_of_ne heq] at hu
    exact h u hu

theorem Serial.enter (h : s.Serial) (hfree : s.syncQ = none) :
    Serial { s.moveTo t place with syncQ := some t } := by
  intro u hu
  by_cases heq : u = t
  · rw [heq]
  · have howner := h u (by simpa [BRUConcurrentVariable.moveTo, heq] using hu)
    rw [hfree] at howner
    cases howner

omit [DecidableEq Th] in
/-- Two blocks are never on the queue. -/
theorem Serial.not_onQueue (h : s.Serial) (ht : (s.threads t).onQueue = true) (hne : u ≠ t) :
    (s.threads u).onQueue = false := by
  rw [Bool.eq_false_iff]
  intro hu
  have howner := h t ht
  rw [h u hu] at howner
  exact hne (Option.some.inj howner)

theorem Serial.leave (h : s.Serial) (ht : (s.threads t).onQueue = true)
    (hqueue : place.onQueue = false) : Serial { s.moveTo t place with syncQ := none } := by
  intro u hu
  by_cases heq : u = t
  · simp [BRUConcurrentVariable.moveTo, heq, hqueue] at hu
  · have hnot := h.not_onQueue ht heq
    simp [BRUConcurrentVariable.moveTo, heq, hnot] at hu

omit [DecidableEq Th] in
theorem InStep.phase_at (h : InStep s a) (hplace : s.threads t = place) :
    place.InPhase s.currentValue (a.calls t) := by
  rw [← hplace]
  exact h.phases t

/-- A thread goes on, and its call with it. -/
theorem InStep.moves (h : InStep s a) (t : Th) (hphase : place.InPhase s.currentValue phase)
    (u : Th) :
    ((s.moveTo t place).threads u).InPhase s.currentValue
      (Function.update a.calls t phase u) := by
  by_cases hu : u = t
  · rw [hu, threads_moveTo_self, Function.update_self]
    exact hphase
  · rw [threads_moveTo_of_ne hu, Function.update_of_ne hu]
    exact h.phases u

/-- A thread goes on within its call. -/
theorem InStep.stays (h : InStep s a) (hphase : place.InPhase s.currentValue (a.calls t))
    (u : Th) : ((s.moveTo t place).threads u).InPhase s.currentValue (a.calls u) := by
  have hmoves := h.moves t hphase u
  rwa [Function.update_eq_self] at hmoves

/-- A block takes effect.  No other block is on the queue. -/
theorem InStep.effect (h : InStep s a) (ht : (s.threads t).onQueue = true)
    {method : VariableMethod T} {seen : T → Prop} {result : Option T} {newValue : T}
    (hpending : a.calls t = .pending method seen)
    (hnext : SequentialVariable s.currentValue method result newValue) :
    ∃ a', a.Step SequentialVariable none a' ∧
      InStep { s.moveTo t (.leaving method result) with currentValue := newValue } a' := by
  rw [← h.state] at hnext
  refine ⟨_, .effect hpending hnext, rfl, h.serial.move (fun _ => ht), ?_⟩
  intro u
  show ((s.moveTo t (.leaving method result)).threads u).InPhase newValue
    (Function.update (fun u => (a.calls u).see newValue) t (.answered method result) u)
  by_cases hu : u = t
  · rw [hu, threads_moveTo_self, Function.update_self]
    rfl
  · rw [threads_moveTo_of_ne hu, Function.update_of_ne hu]
    exact (h.phases u).see (h.serial.not_onQueue ht hu) newValue

/-- A block goes on. -/
theorem InStep.advance (h : InStep s a) (hstep : s.step (.advance t) = .ok s') :
    ∃ a', a.Step SequentialVariable none a' ∧ InStep s' a' := by
  cases hplace : s.threads t with
  | inBlock method =>
    have hqueue : (s.threads t).onQueue = true := by
      rw [hplace]
      rfl
    obtain ⟨seen, hpending⟩ := h.phase_at hplace
    cases method with
    | readVariable =>
      simp only [step, hplace, pure_eq_ok] at hstep
      subst hstep
      exact h.effect hqueue hpending (.readVariable s.currentValue)
    | writeVariableWithValue newValue =>
      simp only [step, hplace, pure_eq_ok] at hstep
      subst hstep
      exact h.effect hqueue hpending (.writeVariableWithValue s.currentValue newValue)
    | swapVariableWithValue _ | modifyVariableWithBlock _ =>
      simp only [step, hplace, pure_eq_ok] at hstep
      subst hstep
      exact ⟨a, .stutter, h.state, h.serial.move (fun _ => hqueue),
        h.stays ⟨⟨seen, hpending⟩, rfl⟩⟩
  | modifying method oldValue =>
    obtain ⟨hpending, hvalue⟩ := h.phase_at hplace
    simp only [step, hplace, bind_eq_ok, pure_eq_ok] at hstep
    obtain ⟨newValue, hmodified, rfl⟩ := hstep
    refine ⟨a, .stutter, h.state, h.serial.move (fun _ => by rw [hplace]; rfl), ?_⟩
    exact h.stays ⟨hpending, hvalue, VariableMethod.sequential_modified hmodified⟩
  | storing method oldValue newValue =>
    obtain ⟨⟨seen, hpending⟩, rfl, hnext⟩ := h.phase_at hplace
    simp only [step, hplace, pure_eq_ok] at hstep
    subst hstep
    exact h.effect (by rw [hplace]; rfl) hpending hnext
  | outside | entering | leaving | returning =>
    simp only [step, hplace] at hstep
    cases hstep

/-- Every step of a thread is one of the atomic variable. -/
theorem InStep.step (h : InStep s a) (hstep : s.step e = .ok s') :
    ∃ a', a.Step SequentialVariable (action s e) a' ∧ InStep s' a' := by
  cases e with
  | call t method =>
    cases hplace : s.threads t with
    | outside =>
      simp only [BRUConcurrentVariable.step, hplace, pure_eq_ok] at hstep
      subst hstep
      have hidle : a.calls t = .idle := h.phase_at hplace
      exact ⟨_, .call hidle, h.state, h.serial.move (fun hqueue => by cases hqueue),
        h.moves t ⟨_, rfl⟩⟩
    | _ => simp [BRUConcurrentVariable.step, hplace] at hstep
  | enter t =>
    cases hplace : s.threads t with
    | entering method =>
      simp only [BRUConcurrentVariable.step, hplace, bind_eq_ok, enabledIf_eq_ok, pure_eq_ok]
        at hstep
      obtain ⟨_, hfree, rfl⟩ := hstep
      have hpending := h.phase_at hplace
      exact ⟨a, .stutter, h.state, h.serial.enter (Option.isNone_iff_eq_none.mp hfree),
        h.stays hpending⟩
    | _ => simp [BRUConcurrentVariable.step, hplace] at hstep
  | advance t => exact h.advance hstep
  | leave t =>
    cases hplace : s.threads t with
    | leaving method result =>
      simp only [BRUConcurrentVariable.step, hplace, pure_eq_ok] at hstep
      subst hstep
      have hanswered := h.phase_at hplace
      exact ⟨a, .stutter, h.state, h.serial.leave (by rw [hplace]; rfl) rfl,
        h.stays hanswered⟩
    | _ => simp [BRUConcurrentVariable.step, hplace] at hstep
  | returns t =>
    cases hplace : s.threads t with
    | returning method result =>
      have hanswered : a.calls t = .answered method result := h.phase_at hplace
      simp only [BRUConcurrentVariable.step, hplace, pure_eq_ok] at hstep
      subst hstep
      simp only [action, hplace]
      exact ⟨_, .answer hanswered, h.state, h.serial.move (fun hqueue => by cases hqueue),
        h.moves t rfl⟩
    | _ => simp [BRUConcurrentVariable.step, hplace] at hstep

/-- A variable behaves like the atomic variable. -/
theorem simulates_atomic :
    Simulates (step : BRUConcurrentVariable Th T → Event Th T →
      Exec Assertion (BRUConcurrentVariable Th T)) action SequentialVariable InStep where
  step _ _ _ _ h hstep := h.step hstep

omit [DecidableEq Th] in
theorem inStep_newWithValue (value : T) :
    InStep (newWithValue value : BRUConcurrentVariable Th T) (.init value) where
  state := rfl
  serial _ hqueue := by cases hqueue
  phases _ := rfl

/-- In every run the reads, writes, swaps and modifications can be put into one order that a
variable with one thread answers in the same way, and that keeps every call that was answered
before another began in front of it. -/
theorem variable_linearizable {value : T} {events : List (Event Th T)}
    (hrun : run step (newWithValue value : BRUConcurrentVariable Th T) events = .ok s) :
    ∃ order, Linearization SequentialVariable value
      (history step action (newWithValue value) events) order :=
  simulates_atomic.linearizable (inStep_newWithValue value) hrun

/-- Two threads add one to the variable.  They overlap, and no addition is lost. -/
theorem variable_linearizable_increments :
    ∃ s : BRUConcurrentVariable Nat Nat,
      run step (newWithValue 5)
          [.call 0 (.modifyVariableWithBlock fun n => some (n + 1)),
            .call 1 (.modifyVariableWithBlock fun n => some (n + 1)),
            .enter 1, .advance 1, .advance 1, .advance 1, .leave 1, .enter 0, .advance 0,
            .advance 0, .advance 0, .leave 0, .returns 0, .returns 1] = .ok s ∧
        s.currentValue = 7 ∧
        ∃ order, Linearization SequentialVariable 5
          [.call 0 (.modifyVariableWithBlock fun n => some (n + 1)),
            .call 1 (.modifyVariableWithBlock fun n => some (n + 1)),
            .answer 0 (some 6), .answer 1 (some 5)] order := by
  obtain ⟨s, hrun, hvalue⟩ : ∃ s : BRUConcurrentVariable Nat Nat,
      run step (newWithValue 5)
          [.call 0 (.modifyVariableWithBlock fun n => some (n + 1)),
            .call 1 (.modifyVariableWithBlock fun n => some (n + 1)),
            .enter 1, .advance 1, .advance 1, .advance 1, .leave 1, .enter 0, .advance 0,
            .advance 0, .advance 0, .leave 0, .returns 0, .returns 1] = .ok s ∧
        s.currentValue = 7 :=
    ⟨_, rfl, rfl⟩
  exact ⟨s, hrun, hvalue, variable_linearizable hrun⟩

end BRUConcurrentVariable

end BromiumCoreUtils
