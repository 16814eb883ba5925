import BromiumCoreUtils.Box.Basic
import BromiumCoreUtils.Foundation
import BromiumCoreUtils.Lib.Machine
import Mathlib.Logic.Function.Basic

/-!
# The threads of a box

Any number of threads call the methods of one box.  `lock` is the lock of the
`NSCondition`, and a thread in a method is at a `Place`: it waits for the lock,
it holds the lock at one of the statements of the method, it is asleep on the
condition, or it has woken up and waits for the lock again.

All methods have one shape.  They `test` the value, and go on, give up or wait;
then they `store`, broadcast and return.  A wait may end without a broadcast,
and the wait of `tryTakeUntil:` may end because its date has come, even if the
thread was woken up and has not got the lock yet.  `take` is `tryTakeUntil:`
with a date in the distant future.
-/

namespace BromiumCoreUtils

open Machine

/-- A method of the box, with its argument. -/
inductive BoxMethod (T : Type) where
  | put (value : T)
  | tryPut (value : T)
  | take
  | tryTakeUntil
  | tryTake
  | swapWithValue (newValue : T)
  | trySwapWithValue (newValue : T)
  | isEmpty
deriving DecidableEq, Repr

/-- What a method returns. -/
inductive BoxResult (T : Type) where
  | void
  | bool (b : Bool)
  | object (value : Option T)
deriving DecidableEq, Repr

/-- What the test of a method says. -/
inductive BoxVerdict (T : Type) where
  | proceed
  | wait
  | giveUp (result : BoxResult T)
deriving DecidableEq, Repr

namespace BoxMethod

variable {T : Type}

/-- The test at the top of the method. -/
def test (box : BRUConcurrentBox T) : BoxMethod T → BoxVerdict T
  | .put _ => if box.value.isSome then .wait else .proceed
  | .tryPut _ => if box.value.isSome then .giveUp (.bool false) else .proceed
  | .take => if box.value.isNone then .wait else .proceed
  | .tryTakeUntil => if box.value.isNone then .wait else .proceed
  | .tryTake => if box.value.isNone then .giveUp (.object none) else .proceed
  | .swapWithValue _ => if box.value.isNone then .wait else .proceed
  | .trySwapWithValue _ => .proceed
  | .isEmpty => .giveUp (.bool box.value.isNone)

/-- The assignments to `self.value` and to the variable that is returned. -/
def store (box : BRUConcurrentBox T) : BoxMethod T → BoxResult T × BRUConcurrentBox T
  | .put value => (.void, ⟨some value⟩)
  | .tryPut value => (.bool true, ⟨some value⟩)
  | .take => (.object box.value, .emptyBox)
  | .tryTakeUntil => (.object box.value, .emptyBox)
  | .tryTake => (.object box.value, .emptyBox)
  | .swapWithValue newValue => (.object box.value, ⟨some newValue⟩)
  | .trySwapWithValue newValue => (.object box.value, ⟨some newValue⟩)
  | .isEmpty => (.bool box.value.isNone, box)

/-- The value that the method stores. -/
def stored : BoxMethod T → List T
  | .put value => [value]
  | .tryPut value => [value]
  | .swapWithValue newValue => [newValue]
  | .trySwapWithValue newValue => [newValue]
  | _ => []

/-- The methods that end with `assert(value)` or `assert(oldValue)`. -/
def assertsValue : BoxMethod T → Bool
  | .take => true
  | .tryTakeUntil => true
  | .tryTake => true
  | .swapWithValue _ => true
  | _ => false

/-- The method that ends with `assert(thing)`. -/
def assertsThing : BoxMethod T → Bool
  | .take => true
  | _ => false

/-- The methods that wait with `waitUntilDate:`. -/
def waitsUntilDate : BoxMethod T → Bool
  | .take => true
  | .tryTakeUntil => true
  | _ => false

/-- Who waits: `put:` for an empty box, `take`, `tryTakeUntil:` and
`swapWithValue:` for a full one. -/
theorem wait_cases {box : BRUConcurrentBox T} {method : BoxMethod T}
    (h : method.test box = .wait) :
    (∃ v, method = .put v) ∧ box.value.isSome = true ∨
      (method = .take ∨ method = .tryTakeUntil ∨ ∃ v, method = .swapWithValue v) ∧
        box.value = none := by
  cases method with
  | put v =>
    refine Or.inl ⟨⟨v, rfl⟩, ?_⟩
    cases hbox : box.value <;> simp_all [test]
  | take =>
    refine Or.inr ⟨Or.inl rfl, ?_⟩
    cases hbox : box.value <;> simp_all [test]
  | tryTakeUntil =>
    refine Or.inr ⟨Or.inr (Or.inl rfl), ?_⟩
    cases hbox : box.value <;> simp_all [test]
  | swapWithValue v =>
    refine Or.inr ⟨Or.inr (Or.inr ⟨v, rfl⟩), ?_⟩
    cases hbox : box.value <;> simp_all [test]
  | tryPut v =>
    simp only [test] at h
    split at h <;> cases h
  | tryTake =>
    simp only [test] at h
    split at h <;> cases h
  | trySwapWithValue v => cases h
  | isEmpty => cases h

end BoxMethod

/-- The result is `nil`. -/
def BoxResult.isNil {T : Type} : BoxResult T → Bool
  | .object none => true
  | _ => false

/-- The result is `NO`. -/
def BoxResult.isNo {T : Type} : BoxResult T → Bool
  | .bool false => true
  | _ => false

/-- The value that a result brings out of the box. -/
def BoxResult.values {T : Type} : BoxResult T → List T
  | .object value => value.toList
  | _ => []

/-- Where a thread is. -/
inductive Place (T : Type) where
  /-- It is in no method. -/
  | outside
  /-- It has called a method and waits for the lock. -/
  | entering (method : BoxMethod T)
  -- it holds the lock
  | testing (method : BoxMethod T)
  | storing (method : BoxMethod T)
  | broadcasting (method : BoxMethod T) (result : BoxResult T)
  | unlocking (method : BoxMethod T) (result : BoxResult T)
  /-- It is asleep on the condition. -/
  | asleep (method : BoxMethod T)
  /-- It is awake, with the answer of `waitUntilDate:`, and waits for the
  lock. -/
  | notified (method : BoxMethod T) (signalled : Bool)
deriving DecidableEq, Repr

/-- The thread holds the lock. -/
def Place.holds {T : Type} : Place T → Bool
  | .testing _ => true
  | .storing _ => true
  | .broadcasting _ _ => true
  | .unlocking _ _ => true
  | _ => false

/-- A box and its threads. -/
structure BoxThreads (Th T : Type) where
  box : BRUConcurrentBox T
  lock : Option Th
  threads : Th → Place T
  -- the values that were stored, the values that were taken out, and the calls
  -- that have returned, each in order
  ins : List T
  outs : List T
  returned : List (BoxMethod T × BoxResult T)

namespace BoxThreads

variable {Th T : Type} [DecidableEq Th]

/-- `+emptyBox`, and with a value `+boxWithValue:`, which puts the value before
another thread knows the box. -/
def initWithValue (value : Option T) : BoxThreads Th T where
  box := ⟨value⟩
  lock := none
  threads := fun _ => .outside
  ins := value.toList
  outs := []
  returned := []

/-- The thread is at another place. -/
def moveTo (t : Th) (place : Place T) (s : BoxThreads Th T) : BoxThreads Th T :=
  { s with threads := Function.update s.threads t place }

/-- `-[NSCondition broadcast]`. -/
def broadcast (s : BoxThreads Th T) : BoxThreads Th T :=
  { s with
    threads := fun t =>
      match s.threads t with
      | .asleep method => .notified method true
      | place => place }

/-- What happens next.  Every event is a step of one thread. -/
inductive Event (Th T : Type) where
  | call (t : Th) (method : BoxMethod T)
  | lock (t : Th)
  | test (t : Th)
  | store (t : Th)
  | broadcast (t : Th)
  | unlock (t : Th)
  /-- A wait ends without a broadcast. -/
  | wake (t : Th)
  /-- The date of `waitUntilDate:` has come. -/
  | timeOut (t : Th)
deriving DecidableEq, Repr

/-- Take one step. -/
def step (s : BoxThreads Th T) : Event Th T → Exec Assertion (BoxThreads Th T)
  | .call t method =>
    match s.threads t with
    | .outside => pure (s.moveTo t (.entering method))
    | _ => .error .disabled
  | .lock t => do
    enabledIf (s.lock.isNone = true)
    match s.threads t with
    | .entering method => pure { s.moveTo t (.testing method) with lock := some t }
    | .notified method true => pure { s.moveTo t (.testing method) with lock := some t }
    | .notified method false =>
      pure { s.moveTo t (.unlocking method (.object none)) with lock := some t }
    | _ => .error .disabled
  | .test t =>
    match s.threads t with
    | .testing method =>
      match method.test s.box with
      | .proceed => pure (s.moveTo t (.storing method))
      | .wait => pure { s.moveTo t (.asleep method) with lock := none }
      | .giveUp result => pure (s.moveTo t (.unlocking method result))
    | _ => .error .disabled
  | .store t =>
    match s.threads t with
    | .storing method =>
      let (result, box) := method.store s.box
      pure { s.moveTo t (.broadcasting method result) with
        box := box
        ins := s.ins ++ method.stored
        outs := s.outs ++ result.values }
    | _ => .error .disabled
  | .broadcast t =>
    match s.threads t with
    | .broadcasting method result => do
      assertThat ((method.assertsValue && result.isNil) = false) .noValue
      pure (s.broadcast.moveTo t (.unlocking method result))
    | _ => .error .disabled
  | .unlock t =>
    match s.threads t with
    | .unlocking method result => do
      assertThat ((method.assertsThing && result.isNil) = false) .noThing
      pure { s.moveTo t .outside with
        lock := none
        returned := s.returned ++ [(method, result)] }
    | _ => .error .disabled
  | .wake t =>
    match s.threads t with
    | .asleep method => pure (s.moveTo t (.notified method true))
    | _ => .error .disabled
  | .timeOut t =>
    match s.threads t with
    | .asleep method => do
      enabledIf (method.waitsUntilDate = true)
      pure (s.moveTo t (.notified method false))
    | .notified method _ => do
      enabledIf (method.waitsUntilDate = true)
      pure (s.moveTo t (.notified method false))
    | _ => .error .disabled

/-! ## What a step does -/

/-- One step. -/
inductive Transition : BoxThreads Th T → Event Th T → BoxThreads Th T → Prop where
  | call {s : BoxThreads Th T} {t : Th} {method : BoxMethod T}
      (hplace : s.threads t = .outside) :
      Transition s (.call t method) (s.moveTo t (.entering method))
  | enter {s : BoxThreads Th T} {t : Th} {method : BoxMethod T} (hlock : s.lock = none)
      (hplace : s.threads t = .entering method) :
      Transition s (.lock t) { s.moveTo t (.testing method) with lock := some t }
  | signalled {s : BoxThreads Th T} {t : Th} {method : BoxMethod T} (hlock : s.lock = none)
      (hplace : s.threads t = .notified method true) :
      Transition s (.lock t) { s.moveTo t (.testing method) with lock := some t }
  | timedOut {s : BoxThreads Th T} {t : Th} {method : BoxMethod T} (hlock : s.lock = none)
      (hplace : s.threads t = .notified method false) :
      Transition s (.lock t)
        { s.moveTo t (.unlocking method (.object none)) with lock := some t }
  | proceed {s : BoxThreads Th T} {t : Th} {method : BoxMethod T}
      (hplace : s.threads t = .testing method) (htest : method.test s.box = .proceed) :
      Transition s (.test t) (s.moveTo t (.storing method))
  | wait {s : BoxThreads Th T} {t : Th} {method : BoxMethod T}
      (hplace : s.threads t = .testing method) (htest : method.test s.box = .wait) :
      Transition s (.test t) { s.moveTo t (.asleep method) with lock := none }
  | giveUp {s : BoxThreads Th T} {t : Th} {method : BoxMethod T} {result : BoxResult T}
      (hplace : s.threads t = .testing method) (htest : method.test s.box = .giveUp result) :
      Transition s (.test t) (s.moveTo t (.unlocking method result))
  | store {s : BoxThreads Th T} {t : Th} {method : BoxMethod T}
      (hplace : s.threads t = .storing method) :
      Transition s (.store t)
        { s.moveTo t (.broadcasting method (method.store s.box).1) with
          box := (method.store s.box).2
          ins := s.ins ++ method.stored
          outs := s.outs ++ (method.store s.box).1.values }
  | broadcast {s : BoxThreads Th T} {t : Th} {method : BoxMethod T} {result : BoxResult T}
      (hplace : s.threads t = .broadcasting method result) :
      Transition s (.broadcast t) (s.broadcast.moveTo t (.unlocking method result))
  | unlock {s : BoxThreads Th T} {t : Th} {method : BoxMethod T} {result : BoxResult T}
      (hplace : s.threads t = .unlocking method result) :
      Transition s (.unlock t)
        { s.moveTo t .outside with
          lock := none
          returned := s.returned ++ [(method, result)] }
  | wake {s : BoxThreads Th T} {t : Th} {method : BoxMethod T}
      (hplace : s.threads t = .asleep method) :
      Transition s (.wake t) (s.moveTo t (.notified method true))
  | timeOut {s : BoxThreads Th T} {t : Th} {method : BoxMethod T}
      (hplace : s.threads t = .asleep method ∨ ∃ b, s.threads t = .notified method b)
      (hdate : method.waitsUntilDate = true) :
      Transition s (.timeOut t) (s.moveTo t (.notified method false))

/-- The list of steps is complete. -/
theorem step_transition {s s' : BoxThreads Th T} {e : Event Th T} (h : step s e = .ok s') :
    Transition s e s' := by
  cases e with
  | call t method =>
    simp only [step] at h
    split at h
    · rename_i hplace
      rw [← pure_eq_ok.mp h]
      exact .call hplace
    · cases h
  | lock t =>
    simp only [step, bind_eq_ok, enabledIf_eq_ok] at h
    obtain ⟨_, hlock, h⟩ := h
    have hlock := Option.isNone_iff_eq_none.mp hlock
    split at h
    · rename_i method hplace
      rw [← pure_eq_ok.mp h]
      exact .enter hlock hplace
    · rename_i method hplace
      rw [← pure_eq_ok.mp h]
      exact .signalled hlock hplace
    · rename_i method hplace
      rw [← pure_eq_ok.mp h]
      exact .timedOut hlock hplace
    · cases h
  | test t =>
    simp only [step] at h
    split at h
    · rename_i method hplace
      split at h
      · rename_i htest
        rw [← pure_eq_ok.mp h]
        exact .proceed hplace htest
      · rename_i htest
        rw [← pure_eq_ok.mp h]
        exact .wait hplace htest
      · rename_i result htest
        rw [← pure_eq_ok.mp h]
        exact .giveUp hplace htest
    · cases h
  | store t =>
    simp only [step] at h
    split at h
    · rename_i method hplace
      rw [← pure_eq_ok.mp h]
      exact .store hplace
    · cases h
  | broadcast t =>
    simp only [step] at h
    split at h
    · rename_i method result hplace
      simp only [bind_eq_ok, pure_eq_ok] at h
      obtain ⟨_, _, h⟩ := h
      rw [← h]
      exact .broadcast hplace
    · cases h
  | unlock t =>
    simp only [step] at h
    split at h
    · rename_i method result hplace
      simp only [bind_eq_ok, pure_eq_ok] at h
      obtain ⟨_, _, h⟩ := h
      rw [← h]
      exact .unlock hplace
    · cases h
  | wake t =>
    simp only [step] at h
    split at h
    · rename_i method hplace
      rw [← pure_eq_ok.mp h]
      exact .wake hplace
    · cases h
  | timeOut t =>
    simp only [step] at h
    split at h
    · rename_i method hplace
      simp only [bind_eq_ok, enabledIf_eq_ok, pure_eq_ok] at h
      obtain ⟨_, hdate, h⟩ := h
      rw [← h]
      exact .timeOut (Or.inl hplace) hdate
    · rename_i method b hplace
      simp only [bind_eq_ok, enabledIf_eq_ok, pure_eq_ok] at h
      obtain ⟨_, hdate, h⟩ := h
      rw [← h]
      exact .timeOut (Or.inr ⟨b, hplace⟩) hdate
    · cases h

/-! ## Mutual exclusion -/

variable {s s' : BoxThreads Th T} {e : Event Th T} {t u : Th} {place : Place T}

@[simp] theorem moveTo_same : (s.moveTo t place).threads t = place := by
  simp [moveTo]

@[simp] theorem moveTo_other (h : u ≠ t) :
    (s.moveTo t place).threads u = s.threads u := by
  simp [moveTo, h]

omit [DecidableEq Th] in
/-- A broadcast takes the lock from nobody. -/
@[simp] theorem holds_broadcast : (s.broadcast.threads u).holds = (s.threads u).holds := by
  unfold broadcast
  cases hplace : s.threads u <;> simp [hplace, Place.holds]

/-- The lock knows the thread that holds it. -/
def Locked (s : BoxThreads Th T) : Prop :=
  ∀ t, (s.threads t).holds = true ↔ s.lock = some t

/-- A thread that takes the lock. -/
theorem Locked.acquire (h : Locked s) (hlock : s.lock = none) (hholds : place.holds = true) :
    Locked { s.moveTo t place with lock := some t } := by
  intro u
  by_cases hu : u = t
  · simp [hu, hholds]
  · have hnot := h u
    rw [hlock] at hnot
    show ((s.moveTo t place).threads u).holds = true ↔ some t = some u
    rw [moveTo_other hu, hnot]
    constructor
    · intro heq
      cases heq
    · intro heq
      exact absurd (Option.some.inj heq).symm hu

/-- A thread that gives the lock back. -/
theorem Locked.release (h : Locked s) (hheld : (s.threads t).holds = true)
    (hholds : place.holds = false) : Locked { s.moveTo t place with lock := none } := by
  have hlock := (h t).mp hheld
  intro u
  by_cases hu : u = t
  · simp [hu, hholds]
  · have hother := h u
    rw [hlock] at hother
    show ((s.moveTo t place).threads u).holds = true ↔ none = some u
    rw [moveTo_other hu, hother]
    constructor
    · intro heq
      exact absurd (Option.some.inj heq).symm hu
    · intro heq
      cases heq

/-- A thread that keeps what it has. -/
theorem Locked.move (h : Locked s) (hholds : place.holds = (s.threads t).holds) :
    Locked (s.moveTo t place) := by
  intro u
  by_cases hu : u = t
  · rw [hu, moveTo_same, hholds]
    exact h t
  · rw [moveTo_other hu]
    exact h u

/-- One step keeps one thread at the lock. -/
theorem step_locked (h : Locked s) (hstep : step s e = .ok s') : Locked s' := by
  cases step_transition hstep with
  | call hplace => exact h.move (by rw [hplace]; rfl)
  | enter hlock _ => exact h.acquire hlock rfl
  | signalled hlock _ => exact h.acquire hlock rfl
  | timedOut hlock _ => exact h.acquire hlock rfl
  | proceed hplace _ => exact h.move (by rw [hplace]; rfl)
  | wait hplace _ => exact h.release (by rw [hplace]; rfl) rfl
  | giveUp hplace _ => exact h.move (by rw [hplace]; rfl)
  | @store t method hplace =>
    have hmoved : Locked (s.moveTo t (.broadcasting method (method.store s.box).1)) :=
      h.move (by rw [hplace]; rfl)
    exact hmoved
  | broadcast hplace =>
    have hbroadcast : Locked s.broadcast := by
      intro u
      rw [holds_broadcast]
      exact h u
    exact hbroadcast.move (by rw [holds_broadcast, hplace]; rfl)
  | unlock hplace => exact h.release (by rw [hplace]; rfl) rfl
  | wake hplace => exact h.move (by rw [hplace]; rfl)
  | timeOut hplace _ =>
    refine h.move ?_
    rcases hplace with hplace | ⟨b, hplace⟩
    · rw [hplace]
      rfl
    · rw [hplace]
      rfl

omit [DecidableEq Th] in
/-- Two threads do not hold the lock at once. -/
theorem Locked.eq_of_holds (h : Locked s) (ht : (s.threads t).holds = true)
    (hu : (s.threads u).holds = true) : t = u := by
  have heq := (h t).mp ht
  rw [(h u).mp hu] at heq
  exact (Option.some.inj heq).symm

omit [DecidableEq Th] in
theorem locked_init (value : Option T) : Locked (initWithValue value : BoxThreads Th T) := by
  intro t
  simp [initWithValue, Place.holds]

end BoxThreads

end BromiumCoreUtils
