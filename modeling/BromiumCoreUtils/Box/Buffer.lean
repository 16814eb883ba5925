import BromiumCoreUtils.Box.Threads

/-!
# A box is a buffer with one place

The values that were stored are the values that were taken out, followed by
what is in the box.  Storing and taking happen under the lock, so the proof needs
that the test of a method still holds when the method stores (`Ready`).

A method that comes back with `nil` or `NO` has seen the box empty or full at
some moment of its own call.  For a `tryTakeUntil:` that timed out this is the
moment before its last wait: it does not look at the value again, which may have
arrived since.  `Explained` keeps such a moment for each thread that needs one.
-/

namespace BromiumCoreUtils

open Machine

/-- The method that a thread is in. -/
def Place.method? {T : Type} : Place T → Option (BoxMethod T)
  | .outside => none
  | .entering method => some method
  | .testing method => some method
  | .storing method => some method
  | .broadcasting method _ => some method
  | .unlocking method _ => some method
  | .asleep method => some method
  | .notified method _ => some method

/-- The values that the thread has taken out and not returned. -/
def Place.inHand {T : Type} : Place T → List T
  | .broadcasting _ result => result.values
  | .unlocking _ result => result.values
  | _ => []

/-- The method of a thread that returns `nil`, or will if its date comes. -/
def Place.sawEmpty? {T : Type} : Place T → Option (BoxMethod T)
  | .asleep method => if method.waitsUntilDate then some method else none
  | .notified method true => if method.waitsUntilDate then some method else none
  | .notified method false => some method
  | .broadcasting method result => if result.isNil then some method else none
  | .unlocking method result => if result.isNil then some method else none
  | _ => none

/-- The method of a thread that returns `NO`. -/
def Place.sawFull? {T : Type} : Place T → Option (BoxMethod T)
  | .broadcasting method result => if result.isNo then some method else none
  | .unlocking method result => if result.isNo then some method else none
  | _ => none

namespace BoxMethod

variable {T : Type} {box : BRUConcurrentBox T} {method : BoxMethod T}

/-- A method that may go on puts its value behind the one in the box. -/
theorem store_values (h : method.test box = .proceed) :
    box.value.toList ++ method.stored =
      (method.store box).1.values ++ (method.store box).2.value.toList := by
  cases method <;> cases hbox : box.value <;>
    simp_all [test, store, stored, BoxResult.values, BRUConcurrentBox.emptyBox]

/-- What a method gives up with is no value. -/
theorem giveUp_values {result : BoxResult T} (h : method.test box = .giveUp result) :
    result.values = [] := by
  cases method <;> cases hbox : box.value <;>
    simp_all [test, BoxResult.values, eq_comm]

/-- Giving up with `nil`, a method has seen the box empty. -/
theorem value_of_giveUp_nil {result : BoxResult T} (h : method.test box = .giveUp result)
    (hnil : result.isNil = true) : box.value = none := by
  cases method <;> cases hbox : box.value <;> simp_all [test] <;>
    simp [← h, BoxResult.isNil] at hnil

/-- Giving up with `NO`, it has seen the box full. -/
theorem value_of_giveUp_no {result : BoxResult T} (h : method.test box = .giveUp result)
    (hno : result.isNo = true) : box.value.isSome = true := by
  cases method <;> cases hbox : box.value <;> simp_all [test] <;>
    simp [← h, BoxResult.isNo] at hno

/-- Storing with the result `nil`, it has found the box empty. -/
theorem value_of_store_nil (h : (method.store box).1.isNil = true) : box.value = none := by
  cases method <;> cases hbox : box.value <;> simp_all [store, BoxResult.isNil]

theorem value_of_store_no (h : (method.store box).1.isNo = true) :
    box.value.isSome = true := by
  cases method <;> cases hbox : box.value <;> simp_all [store, BoxResult.isNo]

/-- Waiting for a date, it has seen the box empty. -/
theorem value_of_wait (h : method.test box = .wait) (hdate : method.waitsUntilDate = true) :
    box.value = none := by
  rcases wait_cases h with ⟨⟨v, rfl⟩, _⟩ | ⟨_, hbox⟩
  · cases hdate
  · exact hbox

/-- A method that may go on and asserts its value has one. -/
theorem store_isNil (h : method.test box = .proceed) :
    (method.assertsValue && (method.store box).1.isNil) = false := by
  cases method <;> cases hbox : box.value <;>
    simp_all [test, store, assertsValue, BoxResult.isNil]

end BoxMethod

namespace BoxThreads

variable {Th T : Type} [DecidableEq Th] {s s' : BoxThreads Th T} {e : Event Th T}
  {t : Th} {value : Option T} {events : List (Event Th T)}

/-! ## The values -/

/-- A thread that is about to store has tested the value that is there, and what
it is about to assert holds. -/
structure Ready (s : BoxThreads Th T) : Prop where
  storing : ∀ t method, s.threads t = .storing method → method.test s.box = .proceed
  broadcasting : ∀ t method result, s.threads t = .broadcasting method result →
    (method.assertsValue && result.isNil) = false

/-- A thread that goes where nothing is asserted, and where nothing is stored
that was not tested. -/
theorem Ready.move (h : Ready s) {place : Place T} (hbox : s'.box = s.box)
    (hthreads : s'.threads = Function.update s.threads t place)
    (hstoring : ∀ method, place = .storing method → method.test s.box = .proceed)
    (hbroadcasting : ∀ method result, place ≠ .broadcasting method result) : Ready s' where
  storing u method hplace := by
    rw [hthreads] at hplace
    rw [hbox]
    by_cases hu : u = t
    · rw [hu, Function.update_self] at hplace
      exact hstoring method hplace
    · rw [Function.update_of_ne hu] at hplace
      exact h.storing u method hplace
  broadcasting u method result hplace := by
    rw [hthreads] at hplace
    by_cases hu : u = t
    · rw [hu, Function.update_self] at hplace
      exact absurd hplace (hbroadcasting method result)
    · rw [Function.update_of_ne hu] at hplace
      exact h.broadcasting u method result hplace

/-- The thread that stores is the only one that was about to. -/
theorem Ready.store (hlocked : Locked s) (h : Ready s) {method : BoxMethod T}
    (hplace : s.threads t = .storing method)
    (hthreads : s'.threads =
      Function.update s.threads t (.broadcasting method (method.store s.box).1)) : Ready s' := by
  have hheld : (s.threads t).holds = true := by
    rw [hplace]
    rfl
  refine { storing := ?_, broadcasting := ?_ }
  · intro u method' hplace'
    rw [hthreads] at hplace'
    by_cases hu : u = t
    · rw [hu, Function.update_self] at hplace'
      cases hplace'
    · rw [Function.update_of_ne hu] at hplace'
      have hholds : (s.threads u).holds = true := by
        rw [hplace']
        rfl
      exact absurd (hlocked.eq_of_holds hholds hheld) hu
  · intro u method' result hplace'
    rw [hthreads] at hplace'
    by_cases hu : u = t
    · rw [hu, Function.update_self] at hplace'
      injection hplace' with hmethod hresult
      rw [← hmethod, ← hresult]
      exact BoxMethod.store_isNil (h.storing t method hplace)
    · rw [Function.update_of_ne hu] at hplace'
      exact h.broadcasting u method' result hplace'

omit [DecidableEq Th] in
/-- A broadcast wakes up threads that neither store nor assert. -/
theorem Ready.broadcast (h : Ready s) : Ready s.broadcast where
  storing u method hplace := by
    simp only [BoxThreads.broadcast] at hplace
    split at hplace
    · cases hplace
    · exact h.storing u method hplace
  broadcasting u method result hplace := by
    simp only [BoxThreads.broadcast] at hplace
    split at hplace
    · cases hplace
    · exact h.broadcasting u method result hplace

/-- One step keeps the tests good. -/
theorem step_ready (hlocked : Locked s) (h : Ready s) (hstep : step s e = .ok s') :
    Ready s' := by
  cases step_transition hstep with
  | call _ => exact h.move rfl rfl (by simp) (by simp)
  | enter _ _ => exact h.move rfl rfl (by simp) (by simp)
  | signalled _ _ => exact h.move rfl rfl (by simp) (by simp)
  | timedOut _ _ => exact h.move rfl rfl (by simp) (by simp)
  | proceed _ htest =>
    refine h.move rfl rfl ?_ (by simp)
    intro method heq
    injection heq with heq
    rw [← heq]
    exact htest
  | wait _ _ => exact h.move rfl rfl (by simp) (by simp)
  | giveUp _ _ => exact h.move rfl rfl (by simp) (by simp)
  | store hplace => exact h.store hlocked hplace rfl
  | broadcast _ => exact h.broadcast.move rfl rfl (by simp) (by simp)
  | unlock _ => exact h.move rfl rfl (by simp) (by simp)
  | wake _ => exact h.move rfl rfl (by simp) (by simp)
  | timeOut _ _ => exact h.move rfl rfl (by simp) (by simp)

/-- First in, first out. -/
def Fifo (s : BoxThreads Th T) : Prop :=
  s.ins = s.outs ++ s.box.value.toList

/-- One step keeps the order. -/
theorem step_fifo (hready : Ready s) (h : Fifo s) (hstep : step s e = .ok s') : Fifo s' := by
  unfold Fifo at h ⊢
  cases step_transition hstep with
  | @store t method hplace =>
    have hvalues := BoxMethod.store_values (hready.storing t method hplace)
    show s.ins ++ method.stored =
      s.outs ++ (method.store s.box).1.values ++ (method.store s.box).2.value.toList
    rw [h, List.append_assoc, List.append_assoc, hvalues]
  | _ => exact h

/-- The value that was taken out and not returned. -/
def inFlight (s : BoxThreads Th T) : List T :=
  match s.lock with
  | none => []
  | some t => (s.threads t).inHand

/-- What was taken out was returned, or is about to be. -/
def Returned (s : BoxThreads Th T) : Prop :=
  s.outs = (s.returned.flatMap fun call => call.2.values) ++ s.inFlight

omit [DecidableEq Th] in
theorem inFlight_of_free (hlock : s.lock = none) : s.inFlight = [] := by
  rw [inFlight, hlock]

omit [DecidableEq Th] in
/-- For a thread with the lock, what is in flight is in its hand. -/
theorem inFlight_of_holds (hlocked : Locked s) {place : Place T}
    (hplace : s.threads t = place) (hholds : place.holds = true) :
    s.inFlight = place.inHand := by
  rw [← hplace] at hholds ⊢
  rw [inFlight, (hlocked t).mp hholds]

/-- A thread without the lock has nothing in its hand. -/
theorem inFlight_move (hlocked : Locked s) {place : Place T}
    (hholds : (s.threads t).holds = false) : (s.moveTo t place).inFlight = s.inFlight := by
  cases hlock : s.lock with
  | none => rw [inFlight_of_free hlock, inFlight_of_free (s := s.moveTo t place) hlock]
  | some u =>
    have hheld := (hlocked u).mpr hlock
    have hu : u ≠ t := by
      intro heq
      rw [heq, hholds] at hheld
      cases hheld
    have hlock' : (s.moveTo t place).lock = some u := hlock
    rw [inFlight, hlock', inFlight, hlock]
    simp only [moveTo_other hu]

omit [DecidableEq Th] in
/-- What is taken out or returned in a step has to match what is in flight. -/
theorem Returned.next (h : Returned s) {o : List T} {r : List (BoxMethod T × BoxResult T)}
    (houts : s'.outs = s.outs ++ o) (hreturned : s'.returned = s.returned ++ r)
    (hflight : s.inFlight ++ o = (r.flatMap fun call => call.2.values) ++ s'.inFlight) :
    Returned s' := by
  unfold Returned at h ⊢
  rw [houts, hreturned, h, List.flatMap_append, List.append_assoc, hflight, List.append_assoc]

omit [DecidableEq Th] in
/-- Nothing is taken out or returned, and what is in flight stays so. -/
theorem Returned.keep (h : Returned s) (houts : s'.outs = s.outs)
    (hreturned : s'.returned = s.returned) (hflight : s'.inFlight = s.inFlight) :
    Returned s' := by
  unfold Returned at h ⊢
  rw [houts, hreturned, hflight]
  exact h

/-- One step loses no value between the box and the caller. -/
theorem step_returned (hlocked : Locked s) (h : Returned s) (hstep : step s e = .ok s') :
    Returned s' := by
  have hlocked' := step_locked hlocked hstep
  cases step_transition hstep with
  | @call t method hplace =>
    exact h.keep rfl rfl (inFlight_move hlocked (by rw [hplace]; rfl))
  | @enter t method hlock hplace =>
    refine h.keep rfl rfl ?_
    rw [inFlight_of_free hlock, inFlight_of_holds hlocked' moveTo_same rfl]
    rfl
  | @signalled t method hlock hplace =>
    refine h.keep rfl rfl ?_
    rw [inFlight_of_free hlock, inFlight_of_holds hlocked' moveTo_same rfl]
    rfl
  | @timedOut t method hlock hplace =>
    refine h.keep rfl rfl ?_
    rw [inFlight_of_free hlock, inFlight_of_holds hlocked' moveTo_same rfl]
    rfl
  | @proceed t method hplace htest =>
    refine h.keep rfl rfl ?_
    rw [inFlight_of_holds hlocked hplace rfl, inFlight_of_holds hlocked' moveTo_same rfl]
    rfl
  | @wait t method hplace htest =>
    refine h.keep rfl rfl ?_
    rw [inFlight_of_holds hlocked hplace rfl, inFlight_of_free rfl]
    rfl
  | @giveUp t method result hplace htest =>
    refine h.keep rfl rfl ?_
    rw [inFlight_of_holds hlocked hplace rfl, inFlight_of_holds hlocked' moveTo_same rfl]
    exact BoxMethod.giveUp_values htest
  | @store t method hplace =>
    refine h.next (r := []) rfl (by simp [moveTo]) ?_
    rw [inFlight_of_holds hlocked hplace rfl, inFlight_of_holds hlocked' moveTo_same rfl]
    rfl
  | @broadcast t method result hplace =>
    refine h.keep rfl rfl ?_
    rw [inFlight_of_holds hlocked hplace rfl, inFlight_of_holds hlocked' moveTo_same rfl]
    rfl
  | @unlock t method result hplace =>
    refine h.next (o := []) (by simp [moveTo]) rfl ?_
    rw [inFlight_of_holds hlocked hplace rfl, inFlight_of_free rfl]
    simp [Place.inHand]
  | @wake t method hplace =>
    exact h.keep rfl rfl (inFlight_move hlocked (by rw [hplace]; rfl))
  | @timeOut t method hplace hdate =>
    have hholds : (s.threads t).holds = false := by
      rcases hplace with hplace | ⟨b, hplace⟩ <;> rw [hplace] <;> rfl
    exact h.keep rfl rfl (inFlight_move hlocked hholds)

/-! ## Where `nil` and `NO` come from -/

/-- At that moment the thread was in this call, and the box was empty. -/
def SawEmpty (t : Th) (method : BoxMethod T) (s : BoxThreads Th T) : Prop :=
  (s.threads t).method? = some method ∧ s.box.value = none

/-- At that moment the thread was in this call, and the box was full. -/
def SawFull (t : Th) (method : BoxMethod T) (s : BoxThreads Th T) : Prop :=
  (s.threads t).method? = some method ∧ s.box.value.isSome = true

/-- The moment was in the current call of the thread, which has not returned
since. -/
def InThisCall (value : Option T) (events : List (Event Th T)) (t : Th)
    (P : BoxThreads Th T → Prop) : Prop :=
  Visited step (initWithValue value) P (fun e => e ≠ .unlock t) events

/-- Every thread that needs an empty or a full box has seen one in its call. -/
structure Explained (value : Option T) (events : List (Event Th T)) (s : BoxThreads Th T) :
    Prop where
  empty : ∀ t method, (s.threads t).sawEmpty? = some method →
    InThisCall value events t (SawEmpty t method)
  full : ∀ t method, (s.threads t).sawFull? = some method →
    InThisCall value events t (SawFull t method)

/-- What the threads have seen in their calls, after one of them moves to a place for
which it has seen it before, or sees it now. -/
theorem InThisCall.next {saw? : Place T → Option (BoxMethod T)}
    {Saw : Th → BoxMethod T → BoxThreads Th T → Prop}
    (h : ∀ u method, saw? (s.threads u) = some method →
      InThisCall value events u (Saw u method))
    (hrun : run step (initWithValue value) events = .ok s) {place : Place T}
    (hother : ∀ u, u ≠ t → saw? (s'.threads u) = saw? (s.threads u))
    (hplace : s'.threads t = place) (houtside : saw? .outside = none)
    (he : ∀ u, e = .unlock u → u = t ∧ place = .outside)
    (hsaw : ∀ method, saw? place = some method →
      saw? (s.threads t) = some method ∨ Saw t method s)
    (u : Th) (method : BoxMethod T) (hu : saw? (s'.threads u) = some method) :
    InThisCall value (events ++ [e]) u (Saw u method) := by
  by_cases heq : u = t
  · subst heq
    rw [hplace] at hu
    have hne : e ≠ .unlock u := by
      intro hunlock
      rw [(he u hunlock).2, houtside] at hu
      cases hu
    rcases hsaw method hu with hbefore | hnow
    · exact (h u method hbefore).later hne
    · exact Visited.now hrun hnow hne
  · rw [hother u heq] at hu
    exact (h u method hu).later fun hunlock => heq (he u hunlock).1

/-- The thread that moves needs what it needed before, or sees it now. -/
theorem Explained.next (h : Explained value events s)
    (hrun : run step (initWithValue value) events = .ok s) {place : Place T}
    (hother : ∀ u, u ≠ t → (s'.threads u).sawEmpty? = (s.threads u).sawEmpty? ∧
      (s'.threads u).sawFull? = (s.threads u).sawFull?)
    (hplace : s'.threads t = place) (he : ∀ u, e = .unlock u → u = t ∧ place = .outside)
    (hempty : ∀ method, place.sawEmpty? = some method →
      (s.threads t).sawEmpty? = some method ∨ SawEmpty t method s)
    (hfull : ∀ method, place.sawFull? = some method →
      (s.threads t).sawFull? = some method ∨ SawFull t method s) :
    Explained value (events ++ [e]) s' where
  empty := InThisCall.next h.empty hrun (fun u hu => (hother u hu).1) hplace rfl he hempty
  full := InThisCall.next h.full hrun (fun u hu => (hother u hu).2) hplace rfl he hfull

/-- The other threads stay where they are. -/
theorem Explained.move (h : Explained value events s)
    (hrun : run step (initWithValue value) events = .ok s) {place : Place T}
    (hthreads : s'.threads = Function.update s.threads t place)
    (he : ∀ u, e = .unlock u → u = t ∧ place = .outside)
    (hempty : ∀ method, place.sawEmpty? = some method →
      (s.threads t).sawEmpty? = some method ∨ SawEmpty t method s)
    (hfull : ∀ method, place.sawFull? = some method →
      (s.threads t).sawFull? = some method ∨ SawFull t method s) :
    Explained value (events ++ [e]) s' := by
  refine h.next hrun (t := t) ?_ ?_ he hempty hfull
  · intro u hu
    rw [hthreads, Function.update_of_ne hu]
    exact ⟨rfl, rfl⟩
  · rw [hthreads, Function.update_self]

/-- One step keeps what every thread has seen. -/
theorem step_explained (hrun : run step (initWithValue value) events = .ok s)
    (h : Explained value events s) (hstep : step s e = .ok s') :
    Explained value (events ++ [e]) s' := by
  cases step_transition hstep with
  | call _ =>
    exact h.move hrun rfl (by simp) (by simp [Place.sawEmpty?]) (by simp [Place.sawFull?])
  | enter _ _ =>
    exact h.move hrun rfl (by simp) (by simp [Place.sawEmpty?]) (by simp [Place.sawFull?])
  | signalled _ _ =>
    exact h.move hrun rfl (by simp) (by simp [Place.sawEmpty?]) (by simp [Place.sawFull?])
  | timedOut _ hplace =>
    -- the moment before its wait
    refine h.move hrun rfl (by simp) ?_ (by simp [Place.sawFull?, BoxResult.isNo])
    intro method heq
    rw [hplace]
    exact Or.inl heq
  | proceed _ _ =>
    exact h.move hrun rfl (by simp) (by simp [Place.sawEmpty?]) (by simp [Place.sawFull?])
  | @wait t method hplace htest =>
    refine h.move hrun rfl (by simp) ?_ (by simp [Place.sawFull?])
    intro method' heq
    simp only [Place.sawEmpty?, Option.ite_none_right_eq_some, Option.some.injEq] at heq
    obtain ⟨hdate, rfl⟩ := heq
    exact Or.inr ⟨by rw [hplace]; rfl, BoxMethod.value_of_wait htest hdate⟩
  | @giveUp t method result hplace htest =>
    refine h.move hrun rfl (by simp) ?_ ?_
    · intro method' heq
      simp only [Place.sawEmpty?, Option.ite_none_right_eq_some, Option.some.injEq] at heq
      obtain ⟨hnil, rfl⟩ := heq
      exact Or.inr ⟨by rw [hplace]; rfl, BoxMethod.value_of_giveUp_nil htest hnil⟩
    · intro method' heq
      simp only [Place.sawFull?, Option.ite_none_right_eq_some, Option.some.injEq] at heq
      obtain ⟨hno, rfl⟩ := heq
      exact Or.inr ⟨by rw [hplace]; rfl, BoxMethod.value_of_giveUp_no htest hno⟩
  | @store t method hplace =>
    refine h.move hrun rfl (by simp) ?_ ?_
    · intro method' heq
      simp only [Place.sawEmpty?, Option.ite_none_right_eq_some, Option.some.injEq] at heq
      obtain ⟨hnil, rfl⟩ := heq
      exact Or.inr ⟨by rw [hplace]; rfl, BoxMethod.value_of_store_nil hnil⟩
    · intro method' heq
      simp only [Place.sawFull?, Option.ite_none_right_eq_some, Option.some.injEq] at heq
      obtain ⟨hno, rfl⟩ := heq
      exact Or.inr ⟨by rw [hplace]; rfl, BoxMethod.value_of_store_no hno⟩
  | @broadcast t method result hplace =>
    refine h.next hrun (t := t) ?_ moveTo_same (by simp) ?_ ?_
    · -- a sleeper that is woken up still has seen what it saw
      intro u hu
      rw [moveTo_other hu]
      simp only [broadcast]
      cases hsleeper : s.threads u <;> simp [Place.sawEmpty?, Place.sawFull?]
    · intro method' heq
      rw [hplace]
      exact Or.inl heq
    · intro method' heq
      rw [hplace]
      exact Or.inl heq
  | unlock _ =>
    exact h.move hrun rfl (by simp) (by simp [Place.sawEmpty?]) (by simp [Place.sawFull?])
  | wake hplace =>
    refine h.move hrun rfl (by simp) ?_ (by simp [Place.sawFull?])
    intro method heq
    rw [hplace]
    exact Or.inl heq
  | @timeOut t method hplace hdate =>
    refine h.move hrun rfl (by simp) ?_ (by simp [Place.sawFull?])
    intro method' heq
    rw [← Option.some.inj heq]
    rcases hplace with hplace | ⟨b, hplace⟩
    · exact Or.inl (by rw [hplace]; exact if_pos hdate)
    · cases b with
      | true => exact Or.inl (by rw [hplace]; exact if_pos hdate)
      | false => exact Or.inl (by rw [hplace]; rfl)

/-! ## The contract -/

/-- A box is a buffer with one place. -/
structure BufferContract (value : Option T) (events : List (Event Th T))
    (s : BoxThreads Th T) : Prop where
  /-- What went in came out in the same order, up to the value that is there. -/
  fifo : s.ins = s.outs ++ s.box.value.toList
  /-- What came out was returned, in the same order, up to the value that the thread
  with the lock is about to return. -/
  returned : s.outs = (s.returned.flatMap fun call => call.2.values) ++ s.inFlight
  /-- A call that is about to return `nil` has seen the box empty. -/
  nil_explained : ∀ t method, s.threads t = .unlocking method (.object none) →
    InThisCall value events t (SawEmpty t method)
  /-- A `tryPut:` that is about to return `NO` has seen it full. -/
  no_explained : ∀ t v, s.threads t = .unlocking (.tryPut v) (.bool false) →
    InThisCall value events t (SawFull t (.tryPut v))
  /-- The assertions of the methods that take a value do not fail. -/
  assertions : ∀ e, step s e ≠ .error (.failed .noValue)

/-- What a thread asserts after its broadcast holds. -/
theorem Ready.step_ne_failed (h : Ready s) (e : Event Th T) :
    step s e ≠ .error (.failed .noValue) := by
  intro hfailed
  cases e with
  | broadcast t =>
    simp only [step] at hfailed
    split at hfailed
    · rename_i method result hplace
      simp [h.broadcasting t method result hplace] at hfailed
    · cases hfailed
  | lock t =>
    simp only [step, bind_eq_failed, enabledIf_ne_failed, false_or] at hfailed
    obtain ⟨_, _, hfailed⟩ := hfailed
    split at hfailed <;> simp at hfailed
  | test t =>
    simp only [step] at hfailed
    split at hfailed
    · split at hfailed <;> simp at hfailed
    · cases hfailed
  | _ =>
    simp only [step] at hfailed
    split at hfailed <;> simp at hfailed

/-- In every run the box is a buffer with one place, whatever its threads call,
however their waits end, and whichever of them is first. -/
theorem box_is_one_place_buffer
    (hrun : run step (initWithValue value : BoxThreads Th T) events = .ok s) :
    BufferContract value events s := by
  have hstate : Locked s ∧ Ready s ∧ Fifo s ∧ Returned s := by
    refine run_invariant
      (I := fun s : BoxThreads Th T => Locked s ∧ Ready s ∧ Fifo s ∧ Returned s) ?_ ?_ hrun
    · intro s e s' hinv hstep
      obtain ⟨hlocked, hready, hfifo, hreturned⟩ := hinv
      exact ⟨step_locked hlocked hstep, step_ready hlocked hready hstep,
        step_fifo hready hfifo hstep, step_returned hlocked hreturned hstep⟩
    · refine ⟨locked_init value, ?_, ?_, rfl⟩
      · exact { storing := by simp [initWithValue], broadcasting := by simp [initWithValue] }
      · rfl
  have hexplained : Explained value events s := by
    refine run_history (I := Explained value) ?_ ?_ hrun
    · exact
        { empty := by simp [initWithValue, Place.sawEmpty?]
          full := by simp [initWithValue, Place.sawFull?] }
    · intro es m e n hm hinv hstep
      exact step_explained hm hinv hstep
  obtain ⟨_, hready, hfifo, hreturned⟩ := hstate
  refine
    { fifo := hfifo, returned := hreturned, nil_explained := ?_, no_explained := ?_,
      assertions := hready.step_ne_failed }
  · intro t method hplace
    exact hexplained.empty t method (by rw [hplace]; rfl)
  · intro t v hplace
    exact hexplained.full t (.tryPut v) (by rw [hplace]; rfl)

/-- A `tryTakeUntil:` times out while a value is put.  It returns `nil` from a box
that is full. -/
theorem box_is_one_place_buffer_timeOut : ∃ s : BoxThreads Nat Nat,
    run step (initWithValue none)
        [.call 0 .tryTakeUntil, .lock 0, .test 0, .call 1 (.put 7), .lock 1, .test 1,
          .store 1, .timeOut 0, .broadcast 1, .unlock 1, .lock 0] = .ok s ∧
      s.threads 0 = .unlocking .tryTakeUntil (.object none) ∧ s.box.value = some 7 ∧
      BufferContract none
        [.call 0 .tryTakeUntil, .lock 0, .test 0, .call 1 (.put 7), .lock 1, .test 1,
          .store 1, .timeOut 0, .broadcast 1, .unlock 1, .lock 0] s := by
  obtain ⟨s, hrun, hplace, hbox⟩ : ∃ s : BoxThreads Nat Nat,
      run step (initWithValue none)
          [.call 0 .tryTakeUntil, .lock 0, .test 0, .call 1 (.put 7), .lock 1, .test 1,
            .store 1, .timeOut 0, .broadcast 1, .unlock 1, .lock 0] = .ok s ∧
        s.threads 0 = .unlocking .tryTakeUntil (.object none) ∧ s.box.value = some 7 :=
    ⟨_, rfl, rfl, rfl⟩
  exact ⟨s, hrun, hplace, hbox, box_is_one_place_buffer hrun⟩

end BoxThreads

end BromiumCoreUtils
