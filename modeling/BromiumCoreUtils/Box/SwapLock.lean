import BromiumCoreUtils.Box.Threads
import BromiumCoreUtils.ConcurrentVariable.Basic

/-!
# A lock made of a box, and one made of a variable

The clients swap their tokens with `swapWithValue:` of a box that holds zero, or with
`swapVariableWithValue:` of a variable that does.  A box that is only swapped stays full, so
no swap waits for a value.

Both are atomic registers for their threads, and `swap_mutual_exclusion` is what that makes of
the protocol.
-/

namespace BromiumCoreUtils

open Machine SwapLock

/-! ## The box as a register -/

/-- The call of swap that a thread is in. -/
def Place.swapPhase {T : Type} : Place T → CallPhase T
  | .entering (.swapWithValue newValue) => .pending newValue
  | .testing (.swapWithValue newValue) => .pending newValue
  | .storing (.swapWithValue newValue) => .pending newValue
  | .broadcasting _ (.object (some oldValue)) => .answered oldValue
  | .unlocking _ (.object (some oldValue)) => .answered oldValue
  | _ => .idle

/-- The thread is in no method but `swapWithValue:`, and does not wait for a value. -/
def Place.Swaps {T : Type} : Place T → Prop
  | .outside => True
  | .entering method => ∃ newValue, method = .swapWithValue newValue
  | .testing method => ∃ newValue, method = .swapWithValue newValue
  | .storing method => ∃ newValue, method = .swapWithValue newValue
  | .broadcasting _ result => ∃ oldValue, result = .object (some oldValue)
  | .unlocking _ result => ∃ oldValue, result = .object (some oldValue)
  | .asleep _ => False
  | .notified _ _ => False

namespace BoxThreads

variable {Th T : Type} [DecidableEq Th]

/-- The box as something to swap with: the other methods have no place in the protocol. -/
def swapObject : SwapObject Th T (BoxThreads Th T) (Event Th T) Assertion where
  step := step
  action s
    | .call t (.swapWithValue newValue) => some (.call t newValue)
    | .call _ _ => none
    | .unlock t =>
      match s.threads t with
      | .unlocking _ (.object (some oldValue)) => some (.answer t oldValue)
      | _ => none
    | .lock _ | .test _ | .store _ | .broadcast _ | .wake _ | .timeOut _ => some .internal

/-- The atomic register that a full box is.  An empty one would hold `zero`. -/
def register (zero : T) (s : BoxThreads Th T) : Register Th T where
  value := s.box.value.getD zero
  calls := fun t => (s.threads t).swapPhase

/-- All the threads swap, and the box is full. -/
structure OnlySwaps (s : BoxThreads Th T) : Prop where
  full : s.box.value.isSome = true
  swaps : ∀ t, (s.threads t).Swaps

omit [DecidableEq Th] in
theorem onlySwaps_initWithValue (value : T) :
    (initWithValue (some value) : BoxThreads Th T).OnlySwaps where
  full := rfl
  swaps _ := trivial

variable {s s' : BoxThreads Th T} {t : Th} {place : Place T} {e : Event Th T} {zero : T}

theorem register_moveTo (zero : T) (s : BoxThreads Th T) (t : Th) (place : Place T) :
    (s.moveTo t place).register zero =
      { s.register zero with
        calls := Function.update (s.register zero).calls t place.swapPhase } := by
  have hcalls := Function.comp_update Place.swapPhase s.threads t place
  exact congrArg (Register.mk (s.box.value.getD zero)) hcalls

/-- The thread is still in the same call. -/
theorem register_moveTo_same (hphase : place.swapPhase = (s.threads t).swapPhase) :
    (s.moveTo t place).register zero = s.register zero := by
  rw [register_moveTo, hphase]
  exact congrArg (Register.mk (s.box.value.getD zero)) (Function.update_eq_self t _)

theorem OnlySwaps.moveTo (h : s.OnlySwaps) (t : Th) (hplace : place.Swaps) :
    (s.moveTo t place).OnlySwaps := by
  refine ⟨h.full, ?_⟩
  intro t'
  by_cases heq : t' = t
  · simpa [BoxThreads.moveTo, heq] using hplace
  · simpa [BoxThreads.moveTo, heq] using h.swaps t'

omit [DecidableEq Th] in
theorem OnlySwaps.swaps_at (h : s.OnlySwaps) (hplace : s.threads t = place) : place.Swaps := by
  rw [← hplace]
  exact h.swaps t

/-- A thread that stays in its call does nothing to the register. -/
theorem OnlySwaps.stutter (h : s.OnlySwaps) (hplace : place.Swaps)
    (hphase : place.swapPhase = (s.threads t).swapPhase) :
    (s.moveTo t place).OnlySwaps ∧
      (s.register zero).Step .internal ((s.moveTo t place).register zero) := by
  refine ⟨h.moveTo t hplace, ?_⟩
  rw [register_moveTo_same hphase]
  exact .stutter

omit [DecidableEq Th] in
/-- A full box lets a swap go on. -/
theorem OnlySwaps.test (h : s.OnlySwaps) (newValue : T) :
    (BoxMethod.swapWithValue newValue).test s.box = .proceed := by
  have hfull := h.full
  cases hvalue : s.box.value with
  | none =>
    rw [hvalue] at hfull
    cases hfull
  | some value => simp [BoxMethod.test, hvalue]

omit [DecidableEq Th] in
/-- A broadcast wakes nobody up. -/
theorem OnlySwaps.broadcast (h : s.OnlySwaps) : s.broadcast = s := by
  have hthreads : s.broadcast.threads = s.threads := by
    funext t
    cases hplace : s.threads t with
    | asleep method => exact (h.swaps_at hplace).elim
    | _ => simp [BoxThreads.broadcast, hplace]
  show { s with threads := s.broadcast.threads } = s
  rw [hthreads]

theorem register_store (zero : T) (s : BoxThreads Th T) (t : Th) (place : Place T) (newValue : T)
    (ins outs : List T) :
    register zero { s.moveTo t place with box := ⟨some newValue⟩, ins := ins, outs := outs } =
      ⟨newValue, Function.update (s.register zero).calls t place.swapPhase⟩ := by
  have hcalls := congrArg Register.calls (register_moveTo zero s t place)
  exact congrArg (Register.mk newValue) hcalls

/-- The old value is read and the new one written, and the swap takes effect. -/
theorem OnlySwaps.store (h : s.OnlySwaps) {newValue : T}
    (hplace : s.threads t = .storing (.swapWithValue newValue)) (ins outs : List T) :
    OnlySwaps { s.moveTo t (.broadcasting (.swapWithValue newValue) (.object s.box.value)) with
      box := ⟨some newValue⟩, ins := ins, outs := outs } ∧
    (s.register zero).Step .internal (register zero
      { s.moveTo t (.broadcasting (.swapWithValue newValue) (.object s.box.value)) with
        box := ⟨some newValue⟩, ins := ins, outs := outs }) := by
  have hpending : (s.register zero).calls t = .pending newValue := by
    simp [register, hplace, Place.swapPhase]
  obtain ⟨oldValue, hvalue⟩ := Option.isSome_iff_exists.mp h.full
  have hmoved : (s.moveTo t (.broadcasting (.swapWithValue newValue)
      (.object s.box.value))).OnlySwaps :=
    h.moveTo t ⟨oldValue, by rw [hvalue]⟩
  have hold : (s.register zero).value = oldValue := by
    simp [register, hvalue]
  have hswap := Register.Step.swap hpending
  refine ⟨⟨rfl, hmoved.swaps⟩, ?_⟩
  rw [register_store, hvalue]
  rw [hold] at hswap
  exact hswap

/-- Every step of a thread that swaps is one of the register. -/
theorem OnlySwaps.step (h : s.OnlySwaps) {action : Action Th T}
    (haction : swapObject.action s e = some action) (hstep : s.step e = .ok s') :
    s'.OnlySwaps ∧ (s.register zero).Step action (s'.register zero) := by
  cases step_transition hstep with
  | @call t method hplace =>
    cases method with
    | swapWithValue newValue =>
      obtain rfl : Action.call t newValue = action := by simpa [swapObject] using haction
      refine ⟨h.moveTo t ⟨newValue, rfl⟩, ?_⟩
      rw [register_moveTo]
      exact .call (by simp [register, hplace, Place.swapPhase])
    | _ => simp [swapObject] at haction
  | @enter t method hlock hplace =>
    obtain rfl : Action.internal = action := by simpa [swapObject] using haction
    obtain ⟨newValue, rfl⟩ := h.swaps_at hplace
    have hswaps : (Place.testing (.swapWithValue newValue)).Swaps := ⟨newValue, rfl⟩
    obtain ⟨hmoved, hregister⟩ := h.stutter hswaps (by rw [hplace]; rfl)
    exact ⟨⟨hmoved.full, hmoved.swaps⟩, hregister⟩
  | @proceed t method hplace htest =>
    obtain rfl : Action.internal = action := by simpa [swapObject] using haction
    obtain ⟨newValue, rfl⟩ := h.swaps_at hplace
    exact h.stutter ⟨newValue, rfl⟩ (by rw [hplace]; rfl)
  | @store t method hplace =>
    obtain rfl : Action.internal = action := by simpa [swapObject] using haction
    obtain ⟨newValue, rfl⟩ := h.swaps_at hplace
    exact h.store hplace _ _
  | @broadcast t method result hplace =>
    obtain rfl : Action.internal = action := by simpa [swapObject] using haction
    obtain ⟨oldValue, rfl⟩ := h.swaps_at hplace
    rw [h.broadcast]
    exact h.stutter ⟨oldValue, rfl⟩ (by rw [hplace]; rfl)
  | @unlock t method result hplace =>
    obtain ⟨oldValue, rfl⟩ := h.swaps_at hplace
    obtain rfl : Action.answer t oldValue = action := by simpa [swapObject, hplace] using haction
    have hmoved : (s.moveTo t .outside).OnlySwaps := h.moveTo t trivial
    refine ⟨⟨hmoved.full, hmoved.swaps⟩, ?_⟩
    show (s.register zero).Step (.answer t oldValue) ((s.moveTo t .outside).register zero)
    rw [register_moveTo]
    exact .answer (by simp [register, hplace, Place.swapPhase])
  | @wait t method hplace htest | @giveUp t method result hplace htest =>
    -- the box is full
    obtain ⟨newValue, rfl⟩ := h.swaps_at hplace
    rw [h.test newValue] at htest
    cases htest
  | @signalled t method hlock hplace | @timedOut t method hlock hplace | @wake t method hplace =>
    -- nobody was asleep
    exact (h.swaps_at hplace).elim
  | @timeOut t method hplace hdate =>
    rcases hplace with hplace | ⟨_, hplace⟩
    · exact (h.swaps_at hplace).elim
    · exact (h.swaps_at hplace).elim

/-- A box that is only swapped is an atomic register. -/
theorem simulates_register (zero : T) :
    Simulates (swapObject : SwapObject Th T _ _ _) (register zero) OnlySwaps where
  step _ _ _ _ h haction hstep := h.step haction hstep

/-- The box is full, so no swap waits for a value. -/
structure NeverWaits (s : BoxThreads Th T) : Prop where
  full : s.box.value.isSome = true
  test : ∀ t method, s.threads t = .testing method → method.test s.box = .proceed
  awake : ∀ t method, s.threads t ≠ .asleep method

omit [DecidableEq Th] in
theorem OnlySwaps.neverWaits (h : s.OnlySwaps) : s.NeverWaits where
  full := h.full
  test t method hplace := by
    obtain ⟨newValue, rfl⟩ := h.swaps_at hplace
    exact h.test newValue
  awake t method hplace := h.swaps_at hplace

end BoxThreads

/-! ## The protocol -/

section Protocol

variable {Th T : Type} [DecidableEq Th] [DecidableEq T]

/-- The clients of a box that holds zero. -/
def boxProtocol (zero : T) : Protocol Th T (BoxThreads Th T) where
  object := .initWithValue (some zero)
  clients := fun _ => .outside

/-- The clients of a variable that holds zero. -/
def variableProtocol (zero : T) : Protocol Th T (BRUConcurrentVariable Th T) where
  object := .newWithValue zero
  clients := fun _ => .outside

/-- Any number of threads whose tokens are not zero, with either object and in any order: at
most one has the lock, and the object holds zero exactly when none has.  The tokens need not
differ from each other. -/
theorem swap_mutual_exclusion {zero : T} {token : Th → T} (htoken : ∀ th, token th ≠ zero) :
    (∀ events s, run (step BoxThreads.swapObject zero token) (boxProtocol zero) events = .ok s →
      Exclusive zero (s.object.register zero) s.clients ∧ s.object.NeverWaits) ∧
    (∀ events s,
      run (step BRUConcurrentVariable.swapObject zero token) (variableProtocol zero) events =
        .ok s →
      Exclusive zero s.object.register s.clients) := by
  constructor
  · intro events s hrun
    obtain ⟨honly, hexclusive⟩ :=
      exclusive_run (BoxThreads.simulates_register zero) htoken
        (BoxThreads.onlySwaps_initWithValue zero) rfl (fun _ => rfl) hrun
    exact ⟨hexclusive, honly.neverWaits⟩
  · intro events s hrun
    obtain ⟨-, hexclusive⟩ :=
      exclusive_run BRUConcurrentVariable.simulates_register htoken
        (BRUConcurrentVariable.onlySwaps_newWithValue zero) rfl (fun _ => rfl) hrun
    exact hexclusive

/-- A thread swaps with a box that nobody else uses. -/
def boxSwap (th newValue : Nat) : List (SwapLock.Event Nat (BoxThreads.Event Nat Nat)) :=
  [.object (.call th (.swapWithValue newValue)), .object (.lock th), .object (.test th),
    .object (.store th), .object (.broadcast th), .object (.unlock th)]

/-- A thread swaps with a variable that nobody else uses. -/
def variableSwap (th newValue : Nat) :
    List (SwapLock.Event Nat (BRUConcurrentVariable.Event Nat Nat)) :=
  [.object (.call th (.swapVariableWithValue newValue)), .object (.enter th),
    .object (.advance th), .object (.advance th), .object (.advance th), .object (.leave th),
    .object (.returns th)]

/-- The first thread has the lock, the second one overwrites its token. -/
theorem swap_mutual_exclusion_overwritten :
    (∃ s, run (step BoxThreads.swapObject 0 (· + 1)) (boxProtocol 0)
        (boxSwap 0 1 ++ [.compare 0] ++ boxSwap 1 2 ++ [.compare 1]) = .ok s ∧
      s.object.box.value = some 2 ∧ s.clients 0 = .inside ∧
      Exclusive 0 (s.object.register 0) s.clients ∧ s.object.NeverWaits) ∧
    (∃ s, run (step BRUConcurrentVariable.swapObject 0 (· + 1)) (variableProtocol 0)
        (variableSwap 0 1 ++ [.compare 0] ++ variableSwap 1 2 ++ [.compare 1]) = .ok s ∧
      s.object.currentValue = 2 ∧ s.clients 0 = .inside ∧
      Exclusive 0 s.object.register s.clients) := by
  have hboth := @swap_mutual_exclusion Nat Nat _ _ 0 (· + 1) Nat.succ_ne_zero
  constructor
  · obtain ⟨s, hrun, hvalue, hinside⟩ : ∃ s, run (step BoxThreads.swapObject 0 (· + 1))
        (boxProtocol 0) (boxSwap 0 1 ++ [.compare 0] ++ boxSwap 1 2 ++ [.compare 1]) = .ok s ∧
          s.object.box.value = some 2 ∧ s.clients 0 = .inside := ⟨_, rfl, rfl, rfl⟩
    obtain ⟨hexclusive, hnever⟩ := hboth.1 _ s hrun
    exact ⟨s, hrun, hvalue, hinside, hexclusive, hnever⟩
  · obtain ⟨s, hrun, hvalue, hinside⟩ :
        ∃ s, run (step BRUConcurrentVariable.swapObject 0 (· + 1)) (variableProtocol 0)
          (variableSwap 0 1 ++ [.compare 0] ++ variableSwap 1 2 ++ [.compare 1]) = .ok s ∧
            s.object.currentValue = 2 ∧ s.clients 0 = .inside := ⟨_, rfl, rfl, rfl⟩
    exact ⟨s, hrun, hvalue, hinside, hboth.2 _ s hrun⟩

end Protocol

end BromiumCoreUtils
