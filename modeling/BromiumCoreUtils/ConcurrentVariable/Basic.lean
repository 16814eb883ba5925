import BromiumCoreUtils.Foundation
import BromiumCoreUtils.Lib.SwapLock

/-!
# `BRUConcurrentVariable`

Any number of threads call the methods of one variable.  A method hands a block to the serial
`syncQ` and waits for it, so at most one thread is in its block.  The reads and writes of
`currentValue` and the call of the client's `modifyBlock` are steps of their own.

`simulates_register` says that the variable is an atomic register for threads that swap: a
swap takes effect when it writes its new value.
-/

namespace BromiumCoreUtils

open Machine

/-- A method of the variable, with its argument. -/
inductive VariableMethod (T : Type) where
  | readVariable
  | writeVariableWithValue (newValue : T)
  | swapVariableWithValue (newValue : T)
  /-- The block of the client may return `nil`. -/
  | modifyVariableWithBlock (modifyBlock : T → Option T)

/-- What the `modifyBlock` makes of the old value.  `swapVariableWithValue:` has a block of its
own. -/
def VariableMethod.modified {T : Type} (oldValue : T) : VariableMethod T → Exec Assertion T
  | .swapVariableWithValue newValue => pure newValue
  | .modifyVariableWithBlock modifyBlock =>
    match modifyBlock oldValue with
    | some newValue => pure newValue
    | none => .error (.failed .modifyBlockNil)
  | .readVariable => .error .disabled
  | .writeVariableWithValue _ => .error .disabled

/-- Where a thread is. -/
inductive VariablePlace (T : Type) where
  /-- It is in no method. -/
  | outside
  /-- It has called `dispatch_sync`. -/
  | entering (method : VariableMethod T)
  -- its block is on `syncQ`
  | inBlock (method : VariableMethod T)
  | modifying (method : VariableMethod T) (oldValue : T)
  | storing (method : VariableMethod T) (oldValue newValue : T)
  | leaving (method : VariableMethod T) (result : Option T)
  /-- `dispatch_sync` has returned. -/
  | returning (method : VariableMethod T) (result : Option T)

/-- The block of the thread is on `syncQ`. -/
def VariablePlace.onQueue {T : Type} : VariablePlace T → Bool
  | .inBlock _ | .modifying _ _ | .storing _ _ _ | .leaving _ _ => true
  | .outside | .entering _ | .returning _ _ => false

/-- A `BRUConcurrentVariable` and its threads.  The value is never `nil`. -/
structure BRUConcurrentVariable (Th T : Type) where
  currentValue : T
  /-- The thread whose block is on the queue. -/
  syncQ : Option Th
  threads : Th → VariablePlace T

namespace BRUConcurrentVariable

variable {Th T : Type} [DecidableEq Th]

/-- `+newWithValue:`. -/
def newWithValue (value : T) : BRUConcurrentVariable Th T where
  currentValue := value
  syncQ := none
  threads := fun _ => .outside

/-- The thread is at another place. -/
def moveTo (t : Th) (place : VariablePlace T) (s : BRUConcurrentVariable Th T) :
    BRUConcurrentVariable Th T :=
  { s with threads := Function.update s.threads t place }

/-- What happens next.  Every event is a step of one thread. -/
inductive Event (Th T : Type) where
  | call (t : Th) (method : VariableMethod T)
  /-- The block begins. -/
  | enter (t : Th)
  /-- The block goes on. -/
  | advance (t : Th)
  /-- The block ends. -/
  | leave (t : Th)
  | returns (t : Th)

def step (s : BRUConcurrentVariable Th T) :
    Event Th T → Exec Assertion (BRUConcurrentVariable Th T)
  | .call t method =>
    match s.threads t with
    | .outside => pure (s.moveTo t (.entering method))
    | _ => .error .disabled
  | .enter t =>
    match s.threads t with
    | .entering method => do
      enabledIf (s.syncQ.isNone = true)
      pure { s.moveTo t (.inBlock method) with syncQ := some t }
    | _ => .error .disabled
  | .advance t =>
    match s.threads t with
    | .inBlock .readVariable =>
      pure (s.moveTo t (.leaving .readVariable (some s.currentValue)))
    | .inBlock (.writeVariableWithValue newValue) =>
      pure { s.moveTo t (.leaving (.writeVariableWithValue newValue) none) with
        currentValue := newValue }
    | .inBlock method => pure (s.moveTo t (.modifying method s.currentValue))
    | .modifying method oldValue => do
      let newValue ← method.modified oldValue
      pure (s.moveTo t (.storing method oldValue newValue))
    | .storing method oldValue newValue =>
      pure { s.moveTo t (.leaving method (some oldValue)) with currentValue := newValue }
    | _ => .error .disabled
  | .leave t =>
    match s.threads t with
    | .leaving method result =>
      pure { s.moveTo t (.returning method result) with syncQ := none }
    | _ => .error .disabled
  | .returns t =>
    match s.threads t with
    | .returning _ _ => pure (s.moveTo t .outside)
    | _ => .error .disabled

/-! ## Threads that swap -/

/-- The variable as something to swap with: the other methods have no place in the
protocol. -/
def swapObject : SwapLock.SwapObject Th T (BRUConcurrentVariable Th T) (Event Th T) Assertion where
  step := step
  action s
    | .call t (.swapVariableWithValue newValue) => some (.call t newValue)
    | .call _ _ => none
    | .returns t =>
      match s.threads t with
      | .returning _ (some oldValue) => some (.answer t oldValue)
      | _ => none
    | .enter _ | .advance _ | .leave _ => some .internal

end BRUConcurrentVariable

/-- The call of swap that a thread is in. -/
def VariablePlace.swapPhase {T : Type} : VariablePlace T → SwapLock.CallPhase T
  | .entering (.swapVariableWithValue newValue) => .pending newValue
  | .inBlock (.swapVariableWithValue newValue) => .pending newValue
  | .modifying (.swapVariableWithValue newValue) _ => .pending newValue
  | .storing _ _ newValue => .pending newValue
  | .leaving _ (some oldValue) => .answered oldValue
  | .returning _ (some oldValue) => .answered oldValue
  | _ => .idle

/-- The thread is in no method but `swapVariableWithValue:`, and what it has read is the value. -/
def VariablePlace.Swaps {T : Type} (currentValue : T) : VariablePlace T → Prop
  | .outside => True
  | .entering method => ∃ newValue, method = .swapVariableWithValue newValue
  | .inBlock method => ∃ newValue, method = .swapVariableWithValue newValue
  | .modifying method oldValue =>
    (∃ newValue, method = .swapVariableWithValue newValue) ∧ oldValue = currentValue
  | .storing method oldValue newValue =>
    method = .swapVariableWithValue newValue ∧ oldValue = currentValue
  | .leaving _ result => ∃ oldValue, result = some oldValue
  | .returning _ result => ∃ oldValue, result = some oldValue

namespace BRUConcurrentVariable

variable {Th T : Type} [DecidableEq Th]

/-- The atomic register that the variable is. -/
def register (s : BRUConcurrentVariable Th T) : SwapLock.Register Th T where
  value := s.currentValue
  calls := fun t => (s.threads t).swapPhase

/-- All the threads swap, and the queue is serial. -/
structure OnlySwaps (s : BRUConcurrentVariable Th T) : Prop where
  swaps : ∀ t, (s.threads t).Swaps s.currentValue
  owner : ∀ t, (s.threads t).onQueue = true → s.syncQ = some t

omit [DecidableEq Th] in
theorem onlySwaps_newWithValue (value : T) :
    (newWithValue value : BRUConcurrentVariable Th T).OnlySwaps where
  swaps _ := trivial
  owner _ h := by cases h

variable {s s' : BRUConcurrentVariable Th T} {t : Th} {place : VariablePlace T} {e : Event Th T}

theorem register_moveTo (s : BRUConcurrentVariable Th T) (t : Th) (place : VariablePlace T) :
    (s.moveTo t place).register =
    { s.register with calls := Function.update s.register.calls t place.swapPhase } := by
  have hcalls := Function.comp_update VariablePlace.swapPhase s.threads t place
  exact congrArg (SwapLock.Register.mk s.currentValue) hcalls

/-- The thread is still in the same call. -/
theorem register_moveTo_same (hphase : place.swapPhase = (s.threads t).swapPhase) :
    (s.moveTo t place).register = s.register := by
  rw [register_moveTo, hphase]
  exact congrArg (SwapLock.Register.mk s.currentValue) (Function.update_eq_self t _)

theorem OnlySwaps.moveTo (h : s.OnlySwaps) (hplace : place.Swaps s.currentValue)
    (hqueue : place.onQueue = true → s.syncQ = some t) : (s.moveTo t place).OnlySwaps := by
  constructor
  · intro t'
    by_cases heq : t' = t
    · simpa [BRUConcurrentVariable.moveTo, heq] using hplace
    · simpa [BRUConcurrentVariable.moveTo, heq] using h.swaps t'
  · intro t' ht'
    by_cases heq : t' = t
    · subst heq
      exact hqueue (by simpa [BRUConcurrentVariable.moveTo] using ht')
    · exact h.owner t' (by simpa [BRUConcurrentVariable.moveTo, heq] using ht')

omit [DecidableEq Th] in
theorem OnlySwaps.swaps_at (h : s.OnlySwaps) (hplace : s.threads t = place) :
    place.Swaps s.currentValue := by
  rw [← hplace]
  exact h.swaps t

/-- A thread that stays in its call does nothing to the register. -/
theorem OnlySwaps.stutter (h : s.OnlySwaps) (hplace : place.Swaps s.currentValue)
    (hqueue : place.onQueue = true → s.syncQ = some t)
    (hphase : place.swapPhase = (s.threads t).swapPhase) :
    (s.moveTo t place).OnlySwaps ∧ s.register.Step .internal (s.moveTo t place).register := by
  refine ⟨h.moveTo hplace hqueue, ?_⟩
  rw [register_moveTo_same hphase]
  exact .stutter

omit [DecidableEq Th] in
/-- Two blocks are never on the queue. -/
theorem OnlySwaps.not_onQueue (h : s.OnlySwaps) {t' : Th}
    (ht : (s.threads t).onQueue = true) (hne : t' ≠ t) : (s.threads t').onQueue = false := by
  cases hqueue : (s.threads t').onQueue with
  | false => rfl
  | true =>
    have howner := h.owner t ht
    rw [h.owner t' hqueue] at howner
    exact absurd (Option.some.inj howner) hne

omit [DecidableEq Th] in
/-- What a thread off the queue knows does not depend on the value. -/
theorem swaps_of_not_onQueue {currentValue : T} (newValue : T) (hqueue : place.onQueue = false)
    (h : place.Swaps currentValue) : place.Swaps newValue := by
  cases place with
  | outside | entering | returning => exact h
  | inBlock | modifying | storing | leaving => cases hqueue

/-- The queue is taken. -/
theorem OnlySwaps.enter (h : s.OnlySwaps) (hfree : s.syncQ = none) {newValue : T} :
    OnlySwaps { s.moveTo t (.inBlock (.swapVariableWithValue newValue)) with
      syncQ := some t } := by
  constructor
  · intro t'
    by_cases heq : t' = t
    · simp [BRUConcurrentVariable.moveTo, heq, VariablePlace.Swaps]
    · simpa [BRUConcurrentVariable.moveTo, heq] using h.swaps t'
  · intro t' ht'
    by_cases heq : t' = t
    · rw [heq]
    · have howner := h.owner t' (by simpa [BRUConcurrentVariable.moveTo, heq] using ht')
      rw [hfree] at howner
      cases howner

/-- The queue is given back. -/
theorem OnlySwaps.leave (h : s.OnlySwaps) (ht : (s.threads t).onQueue = true)
    {method : VariableMethod T} {result : Option T} (hresult : ∃ oldValue, result = some oldValue) :
    OnlySwaps { s.moveTo t (.returning method result) with syncQ := none } := by
  constructor
  · intro t'
    by_cases heq : t' = t
    · simpa [BRUConcurrentVariable.moveTo, heq, VariablePlace.Swaps] using hresult
    · simpa [BRUConcurrentVariable.moveTo, heq] using h.swaps t'
  · intro t' ht'
    by_cases heq : t' = t
    · simp [BRUConcurrentVariable.moveTo, heq, VariablePlace.onQueue] at ht'
    · have hqueue := h.not_onQueue ht heq
      simp [BRUConcurrentVariable.moveTo, heq, hqueue] at ht'

/-- The new value is written, while nobody else has read the old one. -/
theorem OnlySwaps.store (h : s.OnlySwaps) (ht : (s.threads t).onQueue = true)
    (method : VariableMethod T) (oldValue newValue : T) :
    OnlySwaps { s.moveTo t (.leaving method (some oldValue)) with currentValue := newValue } := by
  constructor
  · intro t'
    by_cases heq : t' = t
    · simp [BRUConcurrentVariable.moveTo, heq, VariablePlace.Swaps]
    · have hswaps := swaps_of_not_onQueue newValue (h.not_onQueue ht heq)
        (h.swaps t')
      simpa [BRUConcurrentVariable.moveTo, heq] using hswaps
  · intro t' ht'
    by_cases heq : t' = t
    · rw [heq]
      exact h.owner t ht
    · exact h.owner t' (by simpa [BRUConcurrentVariable.moveTo, heq] using ht')

/-! ## The simulation -/

/-- A block that goes on reads the value, has the new one, or writes it. -/
theorem OnlySwaps.advance (h : s.OnlySwaps) (hstep : s.step (.advance t) = .ok s') :
    s'.OnlySwaps ∧ s.register.Step .internal s'.register := by
  have howner := h.owner t
  cases hplace : s.threads t with
  | inBlock method =>
    rw [hplace] at howner
    obtain ⟨newValue, rfl⟩ := h.swaps_at hplace
    simp only [step, hplace, pure_eq_ok] at hstep
    subst hstep
    exact h.stutter ⟨⟨newValue, rfl⟩, rfl⟩ howner (by rw [hplace]; rfl)
  | modifying method oldValue =>
    rw [hplace] at howner
    obtain ⟨⟨newValue, rfl⟩, hvalue⟩ := h.swaps_at hplace
    simp only [step, hplace, VariableMethod.modified, bind_eq_ok, pure_eq_ok] at hstep
    obtain ⟨_, rfl, rfl⟩ := hstep
    exact h.stutter ⟨rfl, hvalue⟩ howner (by rw [hplace]; rfl)
  | storing method oldValue newValue =>
    obtain ⟨rfl, hvalue⟩ := h.swaps_at hplace
    simp only [step, hplace, pure_eq_ok] at hstep
    subst hstep
    refine ⟨h.store (by rw [hplace]; rfl) _ _ _, ?_⟩
    -- here the swap takes effect
    have hpending : s.register.calls t = .pending newValue := by
      simp [register, hplace, VariablePlace.swapPhase]
    have hstored : register { s.moveTo t (.leaving (.swapVariableWithValue newValue)
        (some oldValue)) with currentValue := newValue } =
        ⟨newValue, Function.update s.register.calls t (.answered s.register.value)⟩ := by
      have hcalls := congrArg SwapLock.Register.calls
        (register_moveTo s t (.leaving (.swapVariableWithValue newValue) (some oldValue)))
      rw [hvalue] at hcalls ⊢
      exact congrArg (SwapLock.Register.mk newValue) hcalls
    rw [hstored]
    exact .swap hpending
  | outside | entering | leaving | returning =>
    simp only [step, hplace] at hstep
    cases hstep

/-- Every step of a thread that swaps is one of the register. -/
theorem OnlySwaps.step (h : s.OnlySwaps) {action : SwapLock.Action Th T}
    (haction : swapObject.action s e = some action) (hstep : s.step e = .ok s') :
    s'.OnlySwaps ∧ s.register.Step action s'.register := by
  cases e with
  | call t method =>
    cases method with
    | swapVariableWithValue newValue =>
      obtain rfl : SwapLock.Action.call t newValue = action := by simpa [swapObject] using haction
      cases hplace : s.threads t with
      | outside =>
        simp only [BRUConcurrentVariable.step, hplace, pure_eq_ok] at hstep
        subst hstep
        refine ⟨h.moveTo ⟨newValue, rfl⟩ (fun hqueue => by cases hqueue), ?_⟩
        rw [register_moveTo]
        exact .call (by simp [register, hplace, VariablePlace.swapPhase])
      | _ => simp [BRUConcurrentVariable.step, hplace] at hstep
    | readVariable | writeVariableWithValue | modifyVariableWithBlock =>
      simp [swapObject] at haction
  | enter t =>
    obtain rfl : SwapLock.Action.internal = action := by simpa [swapObject] using haction
    cases hplace : s.threads t with
    | entering method =>
      obtain ⟨newValue, rfl⟩ := h.swaps_at hplace
      simp only [BRUConcurrentVariable.step, hplace, bind_eq_ok, enabledIf_eq_ok, pure_eq_ok]
        at hstep
      obtain ⟨_, hfree, rfl⟩ := hstep
      refine ⟨h.enter (Option.isNone_iff_eq_none.mp hfree), ?_⟩
      show s.register.Step .internal
        (s.moveTo t (.inBlock (.swapVariableWithValue newValue))).register
      rw [register_moveTo_same (by rw [hplace]; rfl)]
      exact .stutter
    | _ => simp [BRUConcurrentVariable.step, hplace] at hstep
  | advance t =>
    obtain rfl : SwapLock.Action.internal = action := by simpa [swapObject] using haction
    exact h.advance hstep
  | leave t =>
    obtain rfl : SwapLock.Action.internal = action := by simpa [swapObject] using haction
    cases hplace : s.threads t with
    | leaving method result =>
      have hswaps := h.swaps_at hplace
      simp only [BRUConcurrentVariable.step, hplace, pure_eq_ok] at hstep
      subst hstep
      refine ⟨h.leave (by rw [hplace]; rfl) hswaps, ?_⟩
      show s.register.Step .internal (s.moveTo t (.returning method result)).register
      obtain ⟨oldValue, rfl⟩ := hswaps
      rw [register_moveTo_same (by rw [hplace]; rfl)]
      exact .stutter
    | _ => simp [BRUConcurrentVariable.step, hplace] at hstep
  | returns t =>
    cases hplace : s.threads t with
    | returning method result =>
      obtain ⟨oldValue, rfl⟩ := h.swaps_at hplace
      obtain rfl : SwapLock.Action.answer t oldValue = action := by
        simpa [swapObject, hplace] using haction
      simp only [BRUConcurrentVariable.step, hplace, pure_eq_ok] at hstep
      subst hstep
      refine ⟨h.moveTo trivial (fun hqueue => by cases hqueue), ?_⟩
      rw [register_moveTo]
      exact .answer (by simp [register, hplace, VariablePlace.swapPhase])
    | _ => simp [BRUConcurrentVariable.step, hplace] at hstep

/-- The variable is an atomic register for threads that swap. -/
theorem simulates_register :
    SwapLock.Simulates (swapObject : SwapLock.SwapObject Th T _ _ _) register OnlySwaps where
  step _ _ _ _ h haction hstep := h.step haction hstep

end BRUConcurrentVariable

end BromiumCoreUtils
