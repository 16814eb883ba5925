import BromiumCoreUtils.Box.Threads

/-!
# No wake-up is lost

Threads that put, threads that take and threads that swap sleep on one
condition, for opposite reasons.  `Sleepers` says that the reason of every
sleeper still holds, unless a thread has changed the value and is about to
broadcast.  That thread holds the lock, so with the lock free no thread sleeps
while the box is ready for it (`no_lost_wakeup`).
-/

namespace BromiumCoreUtils

open Machine

namespace BoxThreads

variable {Th T : Type} [DecidableEq Th] {s s' : BoxThreads Th T} {e : Event Th T}
  {t : Th}

/-- A thread is about to broadcast. -/
def Broadcasting (s : BoxThreads Th T) : Prop :=
  ∃ t method result, s.threads t = .broadcasting method result

/-- The test that sent the sleepers to sleep has not changed. -/
def Waiting (s : BoxThreads Th T) : Prop :=
  ∀ t method, s.threads t = .asleep method → method.test s.box = .wait

/-- Every sleeper has a reason to sleep, or is about to be woken up. -/
def Sleepers (s : BoxThreads Th T) : Prop :=
  Broadcasting s ∨ Waiting s

/-- A thread that goes where it does not sleep, or has a reason to. -/
theorem Sleepers.move (h : Sleepers s) {place : Place T} (hbox : s'.box = s.box)
    (hthreads : s'.threads = Function.update s.threads t place)
    (hnot : ∀ method result, s.threads t ≠ .broadcasting method result)
    (hasleep : ∀ method, place = .asleep method → method.test s.box = .wait) :
    Sleepers s' := by
  rcases h with ⟨u, method, result, hplace⟩ | hwaiting
  · -- the thread that is about to broadcast is another one
    have hu : u ≠ t := by
      intro heq
      rw [heq] at hplace
      exact hnot method result hplace
    refine Or.inl ⟨u, method, result, ?_⟩
    rw [hthreads, Function.update_of_ne hu, hplace]
  · refine Or.inr ?_
    intro u method hplace
    rw [hthreads] at hplace
    rw [hbox]
    by_cases hu : u = t
    · rw [hu, Function.update_self] at hplace
      exact hasleep method hplace
    · rw [Function.update_of_ne hu] at hplace
      exact hwaiting u method hplace

/-- After a broadcast no one sleeps. -/
theorem sleepers_broadcast (method : BoxMethod T) (result : BoxResult T) :
    Sleepers (s.broadcast.moveTo t (.unlocking method result)) := by
  refine Or.inr ?_
  intro u method' hplace
  by_cases hu : u = t
  · rw [hu, moveTo_same] at hplace
    cases hplace
  · rw [moveTo_other hu] at hplace
    simp only [broadcast] at hplace
    split at hplace
    · cases hplace
    · rename_i hnot
      exact absurd hplace (hnot method')

/-- One step leaves every sleeper a reason. -/
theorem step_sleepers (h : Sleepers s) (hstep : step s e = .ok s') : Sleepers s' := by
  cases step_transition hstep with
  | call hplace => exact h.move rfl rfl (by simp [hplace]) (by simp)
  | enter _ hplace => exact h.move rfl rfl (by simp [hplace]) (by simp)
  | signalled _ hplace => exact h.move rfl rfl (by simp [hplace]) (by simp)
  | timedOut _ hplace => exact h.move rfl rfl (by simp [hplace]) (by simp)
  | proceed hplace _ => exact h.move rfl rfl (by simp [hplace]) (by simp)
  | @wait t method hplace htest =>
    refine h.move rfl rfl (by simp [hplace]) ?_
    intro method' heq
    injection heq with heq
    rw [← heq]
    exact htest
  | giveUp hplace _ => exact h.move rfl rfl (by simp [hplace]) (by simp)
  | @store t method hplace =>
    -- the value changes, and the broadcast is still to come
    refine Or.inl ⟨t, method, (method.store s.box).1, ?_⟩
    show (s.moveTo t (.broadcasting method (method.store s.box).1)).threads t = _
    rw [moveTo_same]
  | @broadcast t method result _ => exact sleepers_broadcast method result
  | unlock hplace => exact h.move rfl rfl (by simp [hplace]) (by simp)
  | wake hplace => exact h.move rfl rfl (by simp [hplace]) (by simp)
  | timeOut hplace _ =>
    refine h.move rfl rfl ?_ (by simp)
    rcases hplace with hplace | ⟨b, hplace⟩ <;> simp [hplace]

theorem sleepers_of_reachable {value : Option T}
    (h : Reachable step (initWithValue value) s) : Locked s ∧ Sleepers s := by
  refine h.invariant (I := fun s => Locked s ∧ Sleepers s) ?_ ?_
  · refine ⟨locked_init value, Or.inr ?_⟩
    intro t method hplace
    cases hplace
  · intro s e s' _ hinv hstep
    exact ⟨step_locked hinv.1 hstep, step_sleepers hinv.2 hstep⟩

/-- With the lock free no thread has changed the value without a broadcast. -/
theorem waiting_of_reachable {value : Option T}
    (h : Reachable step (initWithValue value) s) (hlock : s.lock = none) : Waiting s := by
  obtain ⟨hlocked, hsleepers⟩ := sleepers_of_reachable h
  rcases hsleepers with ⟨t, method, result, hplace⟩ | hwaiting
  · have hholds : (s.threads t).holds = true := by
      rw [hplace]
      rfl
    have hheld := (hlocked t).mp hholds
    rw [hlock] at hheld
    cases hheld
  · exact hwaiting

/-- With the lock free, a thread that sleeps in `put:` finds the box full, and
one that sleeps in another method finds it empty.  The other methods are `take`,
`tryTakeUntil:` and `swapWithValue:`. -/
theorem no_lost_wakeup {value : Option T} (h : Reachable step (initWithValue value) s)
    (hlock : s.lock = none) {method : BoxMethod T} (hplace : s.threads t = .asleep method) :
    (∃ v, method = .put v) ∧ s.box.value.isSome = true ∨
      (method = .take ∨ method = .tryTakeUntil ∨ ∃ v, method = .swapWithValue v) ∧
        s.box.value = none :=
  BoxMethod.wait_cases (waiting_of_reachable h hlock t method hplace)

/-- A taker that fell asleep again: another thread was faster. -/
theorem no_lost_wakeup_overtaken : ∃ s : BoxThreads Nat Nat,
    run step (initWithValue none)
        [.call 0 .take, .lock 0, .test 0, .call 1 (.put 7), .lock 1, .test 1, .store 1,
          .broadcast 1, .unlock 1, .call 2 .tryTake, .lock 2, .test 2, .store 2,
          .broadcast 2, .unlock 2, .lock 0, .test 0] = .ok s ∧
      s.threads 0 = .asleep .take ∧ s.box.value = none := by
  obtain ⟨s, hrun, hlock, hplace⟩ : ∃ s : BoxThreads Nat Nat,
      run step (initWithValue none)
          [.call 0 .take, .lock 0, .test 0, .call 1 (.put 7), .lock 1, .test 1, .store 1,
            .broadcast 1, .unlock 1, .call 2 .tryTake, .lock 2, .test 2, .store 2,
            .broadcast 2, .unlock 2, .lock 0, .test 0] = .ok s ∧
        s.lock = none ∧ s.threads 0 = .asleep .take := ⟨_, rfl, rfl, rfl⟩
  refine ⟨s, hrun, hplace, ?_⟩
  rcases no_lost_wakeup ⟨_, hrun⟩ hlock hplace with ⟨⟨v, hmethod⟩, _⟩ | ⟨_, hbox⟩
  · cases hmethod
  · exact hbox

end BoxThreads

end BromiumCoreUtils
