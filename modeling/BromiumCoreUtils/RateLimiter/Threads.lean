import BromiumCoreUtils.Box.Buffer
import BromiumCoreUtils.Lib.Refinement
import BromiumCoreUtils.RateLimiter.Exclusion

/-!
# A rate limiter over the threads of its box

In `BRURateLimiter` the swap of a `setResult:` and the `take` of a delivery are one step each.
Here they are calls of a box with a lock, whose threads come in between: the setters, and as
`none` the thread that runs the blocks of `syncQueue`.

`refines_limiter` says that nothing new can be seen.  A call takes effect when it stores, and a
setter that has got `nil` and not come back yet still has to enqueue.  The box that a delivery
takes from is full, so its `take` never waits.
-/

namespace BromiumCoreUtils

open Machine

/-- A rate limiter and the threads of its box. -/
structure RateLimiterThreads (Th T : Type) where
  /-- Everything but its `concurrentBox`, in the place of which there is `box`. -/
  limiter : BRURateLimiter T
  box : BoxThreads (Option Th) T

/-- What a thread that stores sets. -/
def Place.sets {T : Type} : Place T → List (RateLimiterObservation T)
  | .storing (.trySwapWithValue result) => [.set result]
  | _ => []

namespace RateLimiterThreads

variable {Th T : Type} [DecidableEq Th]

def initWithTargetQueue : RateLimiterThreads Th T where
  limiter := .initWithTargetQueue
  box := .initWithValue none

/-- What happens next. -/
inductive Event (Th T : Type) where
  /-- A thread calls `setResult:`, and in it `trySwapWithValue:`. -/
  | setResult (t : Th) (result : T)
  /-- A step in a method of the box. -/
  | box (e : BoxThreads.Event (Option Th) T)
  /-- `trySwapWithValue:` returns. -/
  | swapped (t : Th)
  /-- The block on `syncQueue` calls `take`. -/
  | take
  /-- `take` returns. -/
  | taken
  /-- A step that has nothing to do with the box. -/
  | limiter (e : BRURateLimiter.Event T)

def step (s : RateLimiterThreads Th T) : Event Th T → Exec Assertion (RateLimiterThreads Th T)
  | .setResult t result => do
    let box ← BoxThreads.step s.box (.call (some t) (.trySwapWithValue result))
    pure { s with box := box }
  | .box (.call _ _) => .error .disabled
  | .box (.unlock _) => .error .disabled
  | .box (.store u) => do
    let box ← BoxThreads.step s.box (.store u)
    pure {
      limiter := { s.limiter with log := s.limiter.log ++ (s.box.threads u).sets }
      box := box }
  | .box e => do
    let box ← BoxThreads.step s.box e
    pure { s with box := box }
  | .swapped t => do
    let box ← BoxThreads.step s.box (.unlock (some t))
    match s.box.threads (some t) with
    | .unlocking _ (.object none) =>
      pure { limiter := { s.limiter with enqueues := s.limiter.enqueues + 1 }, box := box }
    | _ => pure { s with box := box }
  | .take =>
    match s.limiter.delivery with
    | some .take => do
      let box ← BoxThreads.step s.box (.call none .take)
      pure { s with box := box }
    | _ => .error .disabled
  | .taken => do
    let box ← BoxThreads.step s.box (.unlock none)
    match s.box.threads none with
    | .unlocking _ (.object (some result)) =>
      pure {
        limiter := { s.limiter with delivery := some (.performSetResult result) }
        box := box }
    | _ => .error .disabled
  | .limiter (.setResult _) => .error .disabled
  | .limiter .take => .error .disabled
  | .limiter e => do
    let limiter ← BRURateLimiter.step s.limiter e
    pure { s with limiter := limiter }

end RateLimiterThreads

/-! ## The rate limiter with a box that is atomic -/

/-- One enqueue for a setter that has got `nil` and not come back yet. -/
def Place.enqueues {T : Type} : Place T → Nat
  | .broadcasting _ result => if result.isNil then 1 else 0
  | .unlocking _ result => if result.isNil then 1 else 0
  | _ => 0

/-- The value that a `take` has got and not come back with. -/
def Place.taken {T : Type} : Place T → Option T
  | .broadcasting _ result => result.values.head?
  | .unlocking _ result => result.values.head?
  | _ => none

/-- A thread that calls `setResult:` is there. -/
def Place.Setting {T : Type} : Place T → Prop
  | .outside => True
  | .entering method | .testing method | .storing method =>
    ∃ result, method = .trySwapWithValue result
  | .broadcasting method result | .unlocking method result =>
    (∃ value, method = .trySwapWithValue value) ∧ ∃ old, result = .object old
  | .asleep _ | .notified _ _ => False

/-- The thread of the delivery is there. -/
def Place.Taking {T : Type} (delivery : Option (Delivery T)) : Place T → Prop
  | .outside => True
  | .entering method | .testing method | .storing method =>
    method = .take ∧ delivery = some .take
  | .broadcasting method result | .unlocking method result =>
    method = .take ∧ delivery = some .take ∧ ∃ value, result = .object (some value)
  | .asleep _ | .notified _ _ => False

namespace BoxThreads

variable {Th T : Type} {b : BoxThreads (Option Th) T} {t : Th} {u : Option Th} {place : Place T}

/-- The enqueues that are owed by setters in the box. -/
def enqueues (b : BoxThreads (Option Th) T) : Nat :=
  match b.lock with
  | some (some t) => (b.threads (some t)).enqueues
  | _ => 0

theorem enqueues_of_free (hlock : b.lock = none) : b.enqueues = 0 := by
  rw [enqueues, hlock]

theorem enqueues_of_holds (hlocked : Locked b) (hplace : b.threads u = place)
    (hholds : place.holds = true) :
    b.enqueues = if u.isSome then place.enqueues else 0 := by
  rw [← hplace] at hholds ⊢
  rw [enqueues, (hlocked _).mp hholds]
  cases u <;> rfl

/-- A thread that does not hold the lock owes nothing here. -/
theorem enqueues_moveTo [DecidableEq Th] (hlocked : Locked b) (hplace : b.threads u = place)
    (hholds : place.holds = false) (place' : Place T) :
    (b.moveTo u place').enqueues = b.enqueues := by
  rw [← hplace] at hholds
  show (match b.lock with
    | some (some t) => ((b.moveTo u place').threads (some t)).enqueues
    | _ => 0) = b.enqueues
  unfold enqueues
  cases hlock : b.lock with
  | none => rfl
  | some v =>
    cases v with
    | none => rfl
    | some t =>
      have hne : some t ≠ u := by
        rintro rfl
        rw [(hlocked _).mpr hlock] at hholds
        cases hholds
      simp only [moveTo_other hne]

end BoxThreads

namespace RateLimiterThreads

variable {Th T : Type} [DecidableEq Th]

/-- The rate limiter whose swap and `take` are one step. -/
def atomic (s : RateLimiterThreads Th T) : BRURateLimiter T :=
  { s.limiter with
    concurrentBox := s.box.box
    enqueues := s.limiter.enqueues + s.box.enqueues
    delivery :=
      match (s.box.threads none).taken with
      | some result => some (.performSetResult result)
      | none => s.limiter.delivery }

/-- Every thread is in the call that it made. -/
structure Tidy (s : RateLimiterThreads Th T) : Prop where
  locked : BoxThreads.Locked s.box
  ready : BoxThreads.Ready s.box
  setters : ∀ t, (s.box.threads (some t)).Setting
  delivery : (s.box.threads none).Taking s.limiter.delivery

variable {s s' : RateLimiterThreads Th T} {b : BoxThreads (Option Th) T} {t : Th}
variable {place : Place T}

omit [DecidableEq Th] in
theorem atomic_congr {l : BRURateLimiter T} (hbox : b.box = s.box.box)
    (henqueues : l.enqueues + b.enqueues = s.limiter.enqueues + s.box.enqueues)
    (htaken : (b.threads none).taken = (s.box.threads none).taken)
    (hl : { l with enqueues := 0 } = { s.limiter with enqueues := 0 }) :
    atomic ⟨l, b⟩ = s.atomic := by
  injection hl with _ hblock hsuspend hqueue hdelivery _ hblocks hgiven hdidRun hlog
  unfold atomic
  simp only [hbox, henqueues, htaken, hblock, hsuspend, hqueue, hdelivery, hblocks, hgiven,
    hdidRun, hlog]

omit [DecidableEq Th] in
theorem Tidy.setting_at (h : s.Tidy) (hplace : s.box.threads (some t) = place) :
    place.Setting := by
  rw [← hplace]
  exact h.setters t

omit [DecidableEq Th] in
theorem Tidy.taking_at (h : s.Tidy) (hplace : s.box.threads none = place) :
    place.Taking s.limiter.delivery := by
  rw [← hplace]
  exact h.delivery

/-- A setter goes on. -/
theorem Tidy.setter (h : s.Tidy) (hlocked : BoxThreads.Locked b) (hready : BoxThreads.Ready b)
    (hthreads : b.threads = Function.update s.box.threads (some t) place)
    (hplace : place.Setting) {l : BRURateLimiter T} (hl : l.delivery = s.limiter.delivery) :
    Tidy ⟨l, b⟩ where
  locked := hlocked
  ready := hready
  setters t' := by
    show (b.threads (some t')).Setting
    rw [hthreads]
    by_cases heq : t' = t
    · rw [heq, Function.update_self]
      exact hplace
    · rw [Function.update_of_ne (by simpa using heq)]
      exact h.setters t'
  delivery := by
    show (b.threads none).Taking l.delivery
    rw [hthreads, Function.update_of_ne (by simp), hl]
    exact h.delivery

/-- The delivery goes on. -/
theorem Tidy.worker (h : s.Tidy) (hlocked : BoxThreads.Locked b) (hready : BoxThreads.Ready b)
    (hthreads : b.threads = Function.update s.box.threads none place) {l : BRURateLimiter T}
    (hplace : place.Taking l.delivery) : Tidy ⟨l, b⟩ where
  locked := hlocked
  ready := hready
  setters t := by
    show (b.threads (some t)).Setting
    rw [hthreads, Function.update_of_ne (by simp)]
    exact h.setters t
  delivery := by
    show (b.threads none).Taking l.delivery
    rw [hthreads, Function.update_self]
    exact hplace

omit [DecidableEq Th] in
/-- Nobody is asleep. -/
theorem Tidy.not_waiting (h : s.Tidy) (u : Option Th) :
    (∀ method, s.box.threads u ≠ .asleep method) ∧
      ∀ method signalled, s.box.threads u ≠ .notified method signalled := by
  cases u with
  | none =>
    constructor
    · intro method hplace
      exact h.taking_at hplace
    · intro method signalled hplace
      exact h.taking_at hplace
  | some t =>
    constructor
    · intro method hplace
      exact h.setting_at hplace
    · intro method signalled hplace
      exact h.setting_at hplace

omit [DecidableEq Th] in
/-- A broadcast wakes nobody up. -/
theorem Tidy.broadcast (h : s.Tidy) : s.box.broadcast = s.box := by
  have hthreads : s.box.broadcast.threads = s.box.threads := by
    funext u
    simp only [BoxThreads.broadcast]
    split
    · rename_i method hplace
      exact absurd hplace ((h.not_waiting u).1 method)
    · rfl
  exact congrArg (fun threads => { s.box with threads := threads }) hthreads

omit [DecidableEq Th] in
/-- Before a `take` has stored, a delivery is owed, and so the box is full. -/
theorem value_of_delivery (hreach : Reachable BRURateLimiter.step .initWithTargetQueue s.atomic)
    (hdelivery : s.limiter.delivery = some .take) (htaken : (s.box.threads none).taken = none) :
    s.box.box.value.isSome = true := by
  obtain ⟨howed, _⟩ := BRURateLimiter.invariants_of_reachable hreach
  unfold BRURateLimiter.Owed BRURateLimiter.owed at howed
  simp only [atomic, htaken, hdelivery] at howed
  cases hbox : s.box.box.value with
  | none =>
    rw [hbox] at howed
    simp at howed
  | some value => rfl

/-! ## What the steps are to the atomic rate limiter -/

/-- A step of the atomic rate limiter, or none. -/
def Follows (s s' : RateLimiterThreads Th T) : Prop :=
  s'.Tidy ∧ (s'.atomic = s.atomic ∨ ∃ e, BRURateLimiter.step s.atomic e = .ok s'.atomic)

variable {u : Option Th} {place' : Place T}

/-- A thread goes on within its call, and nothing takes effect. -/
theorem Tidy.quiet (h : s.Tidy) (hlocked : BoxThreads.Locked b) (hready : BoxThreads.Ready b)
    (hplace : s.box.threads u = place)
    (hthreads : b.threads = Function.update s.box.threads u place')
    (hbox : b.box = s.box.box) (henqueues : b.enqueues = s.box.enqueues)
    (hsetting : place.Setting → place'.Setting)
    (htaking : place.Taking s.limiter.delivery → place'.Taking s.limiter.delivery)
    (htaken : place'.taken = place.taken) : s.Follows ⟨s.limiter, b⟩ := by
  have hdelivery : (b.threads none).taken = (s.box.threads none).taken := by
    rw [hthreads]
    cases u with
    | none => rw [Function.update_self, htaken, hplace]
    | some t => rw [Function.update_of_ne (by simp)]
  refine ⟨?_, Or.inl (atomic_congr hbox (by rw [henqueues]) hdelivery rfl)⟩
  cases u with
  | none => exact h.worker hlocked hready hthreads (htaking (h.taking_at hplace))
  | some t => exact h.setter hlocked hready hthreads (hsetting (h.setting_at hplace)) rfl

theorem Tidy.lock (h : s.Tidy) (hstep : BoxThreads.step s.box (.lock u) = .ok b) :
    s.Follows ⟨s.limiter, b⟩ := by
  have hlocked := BoxThreads.step_locked h.locked hstep
  have hready := BoxThreads.step_ready h.locked h.ready hstep
  cases BoxThreads.step_transition hstep with
  | @enter _ method hfree hplace =>
    refine h.quiet hlocked hready hplace rfl rfl ?_ id id rfl
    rw [BoxThreads.enqueues_of_free hfree,
      BoxThreads.enqueues_of_holds hlocked BoxThreads.moveTo_same rfl]
    exact ite_self 0
  | signalled _ hplace => exact absurd hplace ((h.not_waiting u).2 _ _)
  | timedOut _ hplace => exact absurd hplace ((h.not_waiting u).2 _ _)

/-- A `take` finds a value, and a swap never waits. -/
theorem Tidy.test (h : s.Tidy)
    (hreach : Reachable BRURateLimiter.step .initWithTargetQueue s.atomic)
    (hstep : BoxThreads.step s.box (.test u) = .ok b) : s.Follows ⟨s.limiter, b⟩ := by
  have hlocked := BoxThreads.step_locked h.locked hstep
  have hready := BoxThreads.step_ready h.locked h.ready hstep
  -- the test says that the method may go on
  have hverdict : ∀ method, s.box.threads u = .testing method →
      method.test s.box.box = .proceed := by
    intro method hplace
    cases u with
    | some t =>
      obtain ⟨result, rfl⟩ := h.setting_at hplace
      rfl
    | none =>
      obtain ⟨rfl, hdelivery⟩ := h.taking_at hplace
      have hfull := value_of_delivery hreach hdelivery (by rw [hplace]; rfl)
      simp [BoxMethod.test, Option.isNone_eq_false_iff.mpr hfull]
  cases BoxThreads.step_transition hstep with
  | @proceed _ method hplace _ =>
    refine h.quiet hlocked hready hplace rfl rfl ?_ id id rfl
    rw [BoxThreads.enqueues_of_holds h.locked hplace rfl,
      BoxThreads.enqueues_of_holds hlocked BoxThreads.moveTo_same rfl]
    rfl
  | wait hplace htest =>
    rw [hverdict _ hplace] at htest
    cases htest
  | giveUp hplace htest =>
    rw [hverdict _ hplace] at htest
    cases htest

theorem Tidy.broadcastStep (h : s.Tidy) (hstep : BoxThreads.step s.box (.broadcast u) = .ok b) :
    s.Follows ⟨s.limiter, b⟩ := by
  have hlocked := BoxThreads.step_locked h.locked hstep
  have hready := BoxThreads.step_ready h.locked h.ready hstep
  cases BoxThreads.step_transition hstep with
  | @broadcast _ method result hplace =>
    rw [h.broadcast] at hlocked hready ⊢
    refine h.quiet hlocked hready hplace rfl rfl ?_ id id rfl
    rw [BoxThreads.enqueues_of_holds h.locked hplace rfl,
      BoxThreads.enqueues_of_holds hlocked BoxThreads.moveTo_same rfl]
    rfl

omit [DecidableEq Th] in
/-- A swap of the atomic box, and what it leaves to the setter. -/
theorem setResult_atomic {result : T} (hbefore : s.box.enqueues = 0)
    (hbox : b.box = ⟨some result⟩)
    (hafter : b.enqueues = if s.box.box.value.isNone then 1 else 0)
    (htaken : (b.threads none).taken = (s.box.threads none).taken) :
    s.atomic.setResult result =
      atomic ⟨{ s.limiter with log := s.limiter.log ++ [.set result] }, b⟩ := by
  unfold BRURateLimiter.setResult atomic
  simp only [BRUConcurrentBox.trySwapWithValue, hbefore, hbox, hafter, htaken]
  cases s.box.box.value <;> rfl

/-- A setter stores: this is its `setResult:`. -/
theorem Tidy.storeSetter (h : s.Tidy)
    (hstep : BoxThreads.step s.box (.store (some t)) = .ok b) :
    s.Follows ⟨{ s.limiter with log := s.limiter.log ++ (s.box.threads (some t)).sets }, b⟩ := by
  have hlocked := BoxThreads.step_locked h.locked hstep
  have hready := BoxThreads.step_ready h.locked h.ready hstep
  cases BoxThreads.step_transition hstep with
  | @store _ method hplace =>
    obtain ⟨result, rfl⟩ := h.setting_at hplace
    have hbefore := BoxThreads.enqueues_of_holds h.locked hplace rfl
    have hafter := BoxThreads.enqueues_of_holds hlocked BoxThreads.moveTo_same rfl
    refine ⟨h.setter hlocked hready rfl ⟨⟨result, rfl⟩, _, rfl⟩ rfl,
      Or.inr ⟨.setResult result, ?_⟩⟩
    rw [hplace]
    refine pure_eq_ok.mpr (setResult_atomic hbefore rfl ?_ ?_)
    · rw [hafter]
      cases hvalue : s.box.box.value with
      | none => simp [Place.enqueues, BoxMethod.store, BoxResult.isNil, hvalue]
      | some old => simp [Place.enqueues, BoxMethod.store, BoxResult.isNil, hvalue]
    · rw [BoxThreads.moveTo]
      simp

omit [DecidableEq Th] in
/-- The `take` of the atomic box. -/
theorem take_atomic {result : T} (hdelivery : s.limiter.delivery = some .take)
    (hbefore : (s.box.threads none).taken = none) (hvalue : s.box.box.value = some result)
    (hbox : b.box = .emptyBox) (henqueues : b.enqueues = s.box.enqueues)
    (hafter : (b.threads none).taken = some result) :
    BRURateLimiter.step s.atomic .take = .ok (atomic ⟨s.limiter, b⟩) := by
  have htake : s.atomic.concurrentBox.take = some (result, .emptyBox) :=
    BRUConcurrentBox.take_eq_some.mpr ⟨hvalue, rfl⟩
  have hatomic : s.atomic.delivery = some .take := by
    simp only [atomic, hbefore, hdelivery]
  simp only [BRURateLimiter.step, hatomic, htake, pure_eq_ok]
  unfold atomic
  simp only [hbox, henqueues, hafter]

/-- The delivery stores: this is its `take`. -/
theorem Tidy.storeDelivery (h : s.Tidy)
    (hstep : BoxThreads.step s.box (.store none) = .ok b) :
    s.Follows ⟨{ s.limiter with log := s.limiter.log ++ (s.box.threads none).sets }, b⟩ := by
  have hlocked := BoxThreads.step_locked h.locked hstep
  have hready := BoxThreads.step_ready h.locked h.ready hstep
  cases BoxThreads.step_transition hstep with
  | @store _ method hplace =>
    obtain ⟨rfl, hdelivery⟩ := h.taking_at hplace
    obtain ⟨result, hvalue⟩ : ∃ result, s.box.box.value = some result := by
      have htest := h.ready.storing none .take hplace
      cases hvalue : s.box.box.value with
      | none => simp [BoxMethod.test, hvalue] at htest
      | some result => exact ⟨result, rfl⟩
    have hlog : s.limiter.log ++ (s.box.threads none).sets = s.limiter.log := by
      rw [hplace]
      exact List.append_nil _
    rw [hlog]
    refine ⟨h.worker hlocked hready rfl ⟨rfl, hdelivery, result, ?_⟩, Or.inr ⟨.take, ?_⟩⟩
    · simp only [BoxMethod.store, hvalue]
    · refine take_atomic hdelivery (by rw [hplace]; rfl) hvalue rfl ?_ ?_
      · rw [BoxThreads.enqueues_of_holds h.locked hplace rfl,
          BoxThreads.enqueues_of_holds hlocked BoxThreads.moveTo_same rfl]
        rfl
      · simp [BoxThreads.moveTo, Place.taken, BoxMethod.store, BoxResult.values, hvalue]

/-- A setter comes back, and enqueues later if it has got `nil`. -/
theorem Tidy.swapped (h : s.Tidy) (hstep : step s (.swapped t) = .ok s') : s.Follows s' := by
  simp only [step, bind_eq_ok] at hstep
  obtain ⟨b, hbox, hstep⟩ := hstep
  have hlocked := BoxThreads.step_locked h.locked hbox
  have hready := BoxThreads.step_ready h.locked h.ready hbox
  cases BoxThreads.step_transition hbox with
  | @unlock _ method result hplace =>
    obtain ⟨_, old, rfl⟩ := h.setting_at hplace
    have hbefore := BoxThreads.enqueues_of_holds h.locked hplace rfl
    rw [hplace] at hstep
    cases old with
    | none =>
      obtain rfl := pure_eq_ok.mp hstep
      refine ⟨h.setter hlocked hready rfl trivial rfl, Or.inl (atomic_congr rfl ?_ ?_ rfl)⟩
      · rw [hbefore, BoxThreads.enqueues_of_free rfl]
        rfl
      · rw [BoxThreads.moveTo]
        simp
    | some old =>
      obtain rfl := pure_eq_ok.mp hstep
      refine ⟨h.setter hlocked hready rfl trivial rfl, Or.inl (atomic_congr rfl ?_ ?_ rfl)⟩
      · rw [hbefore, BoxThreads.enqueues_of_free rfl]
        rfl
      · rw [BoxThreads.moveTo]
        simp

/-- `take` comes back with its value. -/
theorem Tidy.taken (h : s.Tidy) (hstep : step s .taken = .ok s') : s.Follows s' := by
  simp only [step, bind_eq_ok] at hstep
  obtain ⟨b, hbox, hstep⟩ := hstep
  have hlocked := BoxThreads.step_locked h.locked hbox
  have hready := BoxThreads.step_ready h.locked h.ready hbox
  cases BoxThreads.step_transition hbox with
  | @unlock _ method result hplace =>
    obtain ⟨_, hdelivery, value, rfl⟩ := h.taking_at hplace
    have hbefore := BoxThreads.enqueues_of_holds h.locked hplace rfl
    rw [hplace] at hstep
    obtain rfl := pure_eq_ok.mp hstep
    refine ⟨h.worker hlocked hready rfl trivial, Or.inl ?_⟩
    have htaken : (s.box.threads none).taken = some value := by
      rw [hplace]
      rfl
    unfold atomic
    simp only [htaken, hbefore, BoxThreads.enqueues_of_free, BoxThreads.moveTo,
      Function.update_self]
    rfl

theorem Tidy.setResult (h : s.Tidy) {result : T} (hstep : step s (.setResult t result) = .ok s') :
    s.Follows s' := by
  simp only [step, bind_eq_ok, pure_eq_ok] at hstep
  obtain ⟨b, hbox, rfl⟩ := hstep
  have hlocked := BoxThreads.step_locked h.locked hbox
  have hready := BoxThreads.step_ready h.locked h.ready hbox
  cases BoxThreads.step_transition hbox with
  | call hplace =>
    refine ⟨h.setter hlocked hready rfl ⟨result, rfl⟩ rfl, Or.inl (atomic_congr rfl ?_ ?_ rfl)⟩
    · rw [BoxThreads.enqueues_moveTo h.locked hplace rfl]
    · rw [BoxThreads.moveTo_other (by simp)]

theorem Tidy.take (h : s.Tidy) (hstep : step s .take = .ok s') : s.Follows s' := by
  simp only [step] at hstep
  split at hstep
  · rename_i hdelivery
    simp only [bind_eq_ok, pure_eq_ok] at hstep
    obtain ⟨b, hbox, rfl⟩ := hstep
    have hlocked := BoxThreads.step_locked h.locked hbox
    have hready := BoxThreads.step_ready h.locked h.ready hbox
    cases BoxThreads.step_transition hbox with
    | call hplace =>
      refine ⟨h.worker hlocked hready rfl ⟨rfl, hdelivery⟩, Or.inl (atomic_congr rfl ?_ ?_ rfl)⟩
      · rw [BoxThreads.enqueues_moveTo h.locked hplace rfl]
      · rw [BoxThreads.moveTo_same, hplace]
        rfl
  · cases hstep

omit [DecidableEq Th] in
/-- When the delivery has left the box, it has nothing more to come back with. -/
theorem Tidy.taken_eq_none (h : s.Tidy) (hdelivery : s.limiter.delivery ≠ some .take) :
    (s.box.threads none).taken = none := by
  cases hplace : s.box.threads none with
  | broadcasting => exact absurd (h.taking_at hplace).2.1 hdelivery
  | unlocking => exact absurd (h.taking_at hplace).2.1 hdelivery
  | _ => rfl

omit [DecidableEq Th] in
/-- A step that leaves the box alone, and a delivery that is in it. -/
theorem Tidy.keep (h : s.Tidy) {l : BRURateLimiter T}
    (hdelivery : s.limiter.delivery = some .take → l.delivery = some .take) :
    Tidy ⟨l, s.box⟩ where
  locked := h.locked
  ready := h.ready
  setters := h.setters
  delivery := by
    show (s.box.threads none).Taking l.delivery
    cases hplace : s.box.threads none with
    | outside => trivial
    | entering | testing | storing =>
      obtain ⟨hmethod, htake⟩ := h.taking_at hplace
      exact ⟨hmethod, hdelivery htake⟩
    | broadcasting | unlocking =>
      obtain ⟨hmethod, htake, hvalue⟩ := h.taking_at hplace
      exact ⟨hmethod, hdelivery htake, hvalue⟩
    | asleep | notified => exact (h.taking_at hplace).elim

omit [DecidableEq Th] in
/-- The steps that have nothing to do with the box. -/
theorem Tidy.limiter (h : s.Tidy) {e : BRURateLimiter.Event T} {l : BRURateLimiter T}
    (hset : ∀ result, e ≠ .setResult result) (htake : e ≠ .take)
    (hstep : BRURateLimiter.step s.limiter e = .ok l) : s.Follows ⟨l, s.box⟩ := by
  cases BRURateLimiter.step_transition hstep with
  | setEmpty _ => exact absurd rfl (hset _)
  | setFull _ => exact absurd rfl (hset _)
  | take _ _ => exact absurd rfl htake
  | enqueue hpos =>
    refine ⟨h.keep id, Or.inr ⟨.enqueue, ?_⟩⟩
    have hpos' : 0 < s.atomic.enqueues := Nat.lt_of_lt_of_le hpos (Nat.le_add_right _ _)
    have hsub : s.limiter.enqueues - 1 + s.box.enqueues =
        s.limiter.enqueues + s.box.enqueues - 1 := by omega
    simp only [BRURateLimiter.step, bind_eq_ok, enabledIf_eq_ok, pure_eq_ok]
    refine ⟨(), hpos', ?_⟩
    unfold atomic
    simp only [hsub]
  | beginDelivery hdelivery hsuspend hpos =>
    have htaken := h.taken_eq_none (by simp [hdelivery])
    refine ⟨h.keep (by simp [hdelivery]), Or.inr ⟨.beginDelivery, ?_⟩⟩
    have hatomic : s.atomic.delivery = none := by simp only [atomic, htaken, hdelivery]
    simp only [BRURateLimiter.step, bind_eq_ok, enabledIf_eq_ok, pure_eq_ok]
    refine ⟨(), ⟨by rw [hatomic]; rfl, hsuspend, hpos⟩, ?_⟩
    simp only [atomic, htaken]
  | performSetResult hdelivery hnil =>
    have htaken := h.taken_eq_none (by simp [hdelivery])
    refine ⟨h.keep (by simp [hdelivery]),
      Or.inr ⟨.performSetResult, ?_⟩⟩
    simp only [BRURateLimiter.step, BRURateLimiter.performSetResult, bind_eq_ok,
      assertThat_eq_ok, pure_eq_ok, atomic, htaken, hdelivery]
    exact ⟨(), hnil, trivial⟩
  | callResultBlock hdelivery =>
    have htaken := h.taken_eq_none (by simp [hdelivery])
    refine ⟨h.keep (by simp [hdelivery]),
      Or.inr ⟨.callResultBlock, ?_⟩⟩
    simp only [BRURateLimiter.step, pure_eq_ok, atomic, htaken, hdelivery]
  | endDelivery hdelivery =>
    have htaken := h.taken_eq_none (by simp [hdelivery])
    refine ⟨h.keep (by simp [hdelivery]),
      Or.inr ⟨.endDelivery, ?_⟩⟩
    simp only [BRURateLimiter.step, pure_eq_ok, atomic, htaken, hdelivery]
  | @completion completionBlock hgiven hfirst =>
    refine ⟨h.keep id, Or.inr ⟨.completion completionBlock, ?_⟩⟩
    simp only [BRURateLimiter.step, BRURateLimiter.runCompletionBlock, bind_eq_ok,
      enabledIf_eq_ok, assertThat_eq_ok, pure_eq_ok]
    exact ⟨(), hgiven, (), hfirst, rfl⟩

/-- Every step is one of the atomic rate limiter, or none. -/
theorem Tidy.step (h : s.Tidy)
    (hreach : Reachable BRURateLimiter.step .initWithTargetQueue s.atomic) {e : Event Th T}
    (hstep : s.step e = .ok s') : s.Follows s' := by
  cases e with
  | setResult t result => exact h.setResult hstep
  | swapped t => exact h.swapped hstep
  | take => exact h.take hstep
  | taken => exact h.taken hstep
  | box e =>
    cases e with
    | call _ _ => cases hstep
    | unlock _ => cases hstep
    | store u =>
      simp only [RateLimiterThreads.step, bind_eq_ok, pure_eq_ok] at hstep
      obtain ⟨b, hbox, rfl⟩ := hstep
      cases u with
      | none => exact h.storeDelivery hbox
      | some t => exact h.storeSetter hbox
    | lock u =>
      simp only [RateLimiterThreads.step, bind_eq_ok, pure_eq_ok] at hstep
      obtain ⟨b, hbox, rfl⟩ := hstep
      exact h.lock hbox
    | test u =>
      simp only [RateLimiterThreads.step, bind_eq_ok, pure_eq_ok] at hstep
      obtain ⟨b, hbox, rfl⟩ := hstep
      exact h.test hreach hbox
    | broadcast u =>
      simp only [RateLimiterThreads.step, bind_eq_ok, pure_eq_ok] at hstep
      obtain ⟨b, hbox, rfl⟩ := hstep
      exact h.broadcastStep hbox
    | wake u =>
      simp only [RateLimiterThreads.step, bind_eq_ok, pure_eq_ok] at hstep
      obtain ⟨b, hbox, rfl⟩ := hstep
      cases BoxThreads.step_transition hbox with
      | wake hplace => exact absurd hplace ((h.not_waiting u).1 _)
    | timeOut u =>
      simp only [RateLimiterThreads.step, bind_eq_ok, pure_eq_ok] at hstep
      obtain ⟨b, hbox, rfl⟩ := hstep
      cases BoxThreads.step_transition hbox with
      | timeOut hplace _ =>
        rcases hplace with hplace | ⟨signalled, hplace⟩
        · exact absurd hplace ((h.not_waiting u).1 _)
        · exact absurd hplace ((h.not_waiting u).2 _ _)
  | limiter e =>
    cases e with
    | setResult _ => cases hstep
    | take => cases hstep
    | _ =>
      simp only [RateLimiterThreads.step, bind_eq_ok, pure_eq_ok] at hstep
      obtain ⟨l, hl, rfl⟩ := hstep
      exact h.limiter (by simp) (by simp) hl

/-- The rate limiter over the threads of its box refines the one with an atomic box. -/
theorem refines_limiter :
    Refines (step : RateLimiterThreads Th T → _ → _) BRURateLimiter.step .initWithTargetQueue
      atomic Tidy where
  step _ _ _ h hreach hstep := h.step hreach hstep

omit [DecidableEq Th] in
theorem tidy_init : Tidy (initWithTargetQueue : RateLimiterThreads Th T) where
  locked := BoxThreads.locked_init none
  ready :=
    { storing := by simp [initWithTargetQueue, BoxThreads.initWithValue]
      broadcasting := by simp [initWithTargetQueue, BoxThreads.initWithValue] }
  setters _ := trivial
  delivery := trivial

/-! ## Assertions -/

/-- The box asserts that there is a value. -/
theorem box_failed {e : BoxThreads.Event (Option Th) T} {a : Assertion}
    (hfailed : BoxThreads.step b e = .error (.failed a)) :
    a = .noValue ∨ ∃ u method result, e = .unlock u ∧ b.threads u = .unlocking method result ∧
      (method.assertsThing && result.isNil) = true := by
  cases e with
  | broadcast u =>
    simp only [BoxThreads.step] at hfailed
    split at hfailed
    · simp only [bind_eq_failed, assertThat_eq_failed, pure_ne_failed, and_false, exists_false,
        or_false] at hfailed
      exact Or.inl hfailed.2.symm
    · cases hfailed
  | unlock u =>
    simp only [BoxThreads.step] at hfailed
    split at hfailed
    · rename_i method result hplace
      simp only [bind_eq_failed, assertThat_eq_failed, pure_ne_failed, and_false, exists_false,
        or_false, Bool.not_eq_false] at hfailed
      exact Or.inr ⟨u, method, result, rfl, hplace, hfailed.1⟩
    · cases hfailed
  | lock u =>
    simp only [BoxThreads.step, bind_eq_failed, enabledIf_ne_failed, false_or] at hfailed
    obtain ⟨_, _, hfailed⟩ := hfailed
    split at hfailed <;> simp at hfailed
  | test u =>
    simp only [BoxThreads.step] at hfailed
    split at hfailed
    · split at hfailed <;> simp at hfailed
    · cases hfailed
  | _ =>
    simp only [BoxThreads.step] at hfailed
    split at hfailed <;> simp at hfailed

/-- No assertion of the box fails. -/
theorem Tidy.box_ne_failed (h : s.Tidy) (e : BoxThreads.Event (Option Th) T) (a : Assertion) :
    BoxThreads.step s.box e ≠ .error (.failed a) := by
  intro hfailed
  rcases box_failed hfailed with rfl | ⟨u, method, result, _, hplace, hnil⟩
  · exact h.ready.step_ne_failed e hfailed
  · cases u with
    | none =>
      obtain ⟨rfl, _, value, rfl⟩ := h.taking_at hplace
      cases hnil
    | some t =>
      obtain ⟨⟨value, rfl⟩, _⟩ := h.setting_at hplace
      cases hnil

/-- The one assertion that can fail is the one about a completion block that is called again. -/
theorem Tidy.step_failed (h : s.Tidy)
    (hreach : Reachable BRURateLimiter.step .initWithTargetQueue s.atomic) {e : Event Th T}
    {a : Assertion} (hfailed : s.step e = .error (.failed a)) : a = .completionBlockDidRun := by
  cases e with
  | setResult t result =>
    simp [RateLimiterThreads.step, h.box_ne_failed] at hfailed
  | swapped t =>
    simp only [RateLimiterThreads.step, bind_eq_failed, h.box_ne_failed, false_or] at hfailed
    obtain ⟨_, _, hfailed⟩ := hfailed
    split at hfailed <;> simp at hfailed
  | take =>
    simp only [RateLimiterThreads.step] at hfailed
    split at hfailed
    · simp [h.box_ne_failed] at hfailed
    · cases hfailed
  | taken =>
    simp only [RateLimiterThreads.step, bind_eq_failed, h.box_ne_failed, false_or] at hfailed
    obtain ⟨_, _, hfailed⟩ := hfailed
    split at hfailed <;> simp at hfailed
  | box e =>
    cases e with
    | call _ _ => cases hfailed
    | unlock _ => cases hfailed
    | _ => simp [RateLimiterThreads.step, h.box_ne_failed] at hfailed
  | limiter e =>
    cases e with
    | performSetResult =>
      simp only [RateLimiterThreads.step, bind_eq_failed, pure_ne_failed, and_false,
        exists_false, or_false, BRURateLimiter.step] at hfailed
      split at hfailed
      · rename_i result hdelivery
        have htaken := h.taken_eq_none (by simp [hdelivery])
        have hatomic : s.atomic.delivery = some (.performSetResult result) := by
          simp only [atomic, htaken, hdelivery]
        have hexclusive := (BRURateLimiter.exclusive_of_reachable hreach).1
        have hnil : s.limiter.completionBlock = none := hexclusive.taken result hatomic
        simp [BRURateLimiter.performSetResult, hnil] at hfailed
      · cases hfailed
    | completion completionBlock =>
      simp only [RateLimiterThreads.step, BRURateLimiter.step, BRURateLimiter.runCompletionBlock,
        bind_eq_failed, enabledIf_ne_failed, assertThat_eq_failed, pure_ne_failed, and_false,
        exists_false, or_false, false_or] at hfailed
      obtain ⟨_, _, _, heq⟩ := hfailed
      exact heq.symm
    | setResult _ => cases hfailed
    | take => cases hfailed
    | enqueue => simp [RateLimiterThreads.step, BRURateLimiter.step] at hfailed
    | beginDelivery => simp [RateLimiterThreads.step, BRURateLimiter.step] at hfailed
    | callResultBlock =>
      simp only [RateLimiterThreads.step, BRURateLimiter.step] at hfailed
      split at hfailed <;> simp at hfailed
    | endDelivery =>
      simp only [RateLimiterThreads.step, BRURateLimiter.step] at hfailed
      split at hfailed <;> simp at hfailed

/-! ## The contract -/

/-- Nobody is in the box, between a swap and an enqueue, or in a delivery. -/
structure Quiet (s : RateLimiterThreads Th T) : Prop where
  box : ∀ u, s.box.threads u = .outside
  enqueues : s.limiter.enqueues = 0
  syncQueue : s.limiter.syncQueue = 0
  delivery : s.limiter.delivery = none

/-- What the rate limiter does, over the threads of its box. -/
structure ThreadsContract (s : RateLimiterThreads Th T) : Prop where
  /-- The values arrive in the order in which they were set. -/
  conflated : (BRURateLimiter.delivered s.limiter.log).Sublist
    (BRURateLimiter.sets s.limiter.log)
  /-- With nothing left to do, the last value set is the last one delivered. -/
  last : s.Quiet → (BRURateLimiter.delivered s.limiter.log).getLast? =
    (BRURateLimiter.sets s.limiter.log).getLast?
  /-- Between two calls of `resultBlock` the first one is completed. -/
  no_overlap : ∀ pre result c mid result' c' post,
    s.limiter.log = pre ++ .resultBlock result c :: mid ++ .resultBlock result' c' :: post →
      .completion c ∈ mid
  /-- Neither a setter nor a delivery ever waits for the value of the box. -/
  awake : ∀ u method, s.box.threads u ≠ .asleep method
  /-- What the client does wrong is all that can fail. -/
  assertions : ∀ e a, step s e = .error (.failed a) → a = .completionBlockDidRun

omit [DecidableEq Th] in
theorem Quiet.enqueues_atomic (h : s.Quiet) : s.atomic.enqueues = 0 := by
  have hbox : s.box.enqueues = 0 := by
    unfold BoxThreads.enqueues
    split
    · rw [h.box]
      rfl
    · rfl
  show s.limiter.enqueues + s.box.enqueues = 0
  rw [h.enqueues, hbox]

omit [DecidableEq Th] in
theorem Quiet.delivery_atomic (h : s.Quiet) : s.atomic.delivery = none := by
  have htaken : (s.box.threads none).taken = none := by
    rw [h.box]
    rfl
  simp only [atomic, htaken, h.delivery]

omit [DecidableEq Th] in
theorem Quiet.value_eq_none (h : s.Quiet) (howed : BRURateLimiter.Owed s.atomic) :
    s.box.box.value = none := by
  unfold BRURateLimiter.Owed BRURateLimiter.owed at howed
  rw [h.enqueues_atomic, h.delivery_atomic] at howed
  have hqueue : s.atomic.syncQueue = 0 := h.syncQueue
  rw [hqueue] at howed
  cases hbox : s.box.box.value with
  | none => rfl
  | some value => simp [atomic, hbox] at howed

/-- In every run of the rate limiter over the threads of its box, however their steps
interleave, values are conflated and delivered one at a time, and nobody waits in the box. -/
theorem threads_contract {events : List (Event Th T)}
    (hrun : run step (initWithTargetQueue : RateLimiterThreads Th T) events = .ok s) :
    s.ThreadsContract := by
  obtain ⟨htidy, hreach⟩ := refines_limiter.reachable tidy_init (.refl _) hrun
  obtain ⟨howed, hconflated⟩ := BRURateLimiter.invariants_of_reachable hreach
  obtain ⟨_, _, hafter⟩ := BRURateLimiter.exclusive_of_reachable hreach
  refine
    { conflated := ?_, last := ?_, no_overlap := ?_, awake := fun u => (htidy.not_waiting u).1,
      assertions := fun e a hfailed => htidy.step_failed hreach hfailed }
  · have hleft : (BRURateLimiter.delivered s.limiter.log).Sublist s.atomic.arriving := by
      rw [BRURateLimiter.arriving, List.append_assoc]
      exact List.sublist_append_left _ _
    exact hleft.trans hconflated.sublist
  · intro hquiet
    have harriving : s.atomic.arriving = BRURateLimiter.delivered s.limiter.log := by
      have hempty : s.atomic.concurrentBox.value = none := hquiet.value_eq_none howed
      rw [BRURateLimiter.arriving, hquiet.delivery_atomic, hempty]
      simp [BRURateLimiter.inHand, atomic]
    rw [← harriving]
    exact hconflated.last
  · intro pre result c mid result' c' post hlog
    exact hafter _ _ post hlog result' c' rfl pre result c mid rfl

/-- A second value is swapped in while the delivery of the first is between the store of its
`take` and its return. -/
theorem threads_contract_overtaken : ∃ s : RateLimiterThreads Nat Nat,
    run step initWithTargetQueue
        [.setResult 0 1, .box (.lock (some 0)), .box (.test (some 0)), .box (.store (some 0)),
          .box (.broadcast (some 0)), .swapped 0, .limiter .enqueue, .limiter .beginDelivery,
          .setResult 1 2, .take, .box (.lock none), .box (.test none), .box (.store none),
          .box (.broadcast none), .taken, .box (.lock (some 1)), .box (.test (some 1)),
          .box (.store (some 1)), .limiter .performSetResult, .box (.broadcast (some 1)),
          .limiter .callResultBlock, .swapped 1, .limiter .enqueue] = .ok s ∧
      s.limiter.log = [.set 1, .set 2, .resultBlock 1 0] ∧ s.ThreadsContract := by
  obtain ⟨s, hrun, hlog⟩ : ∃ s : RateLimiterThreads Nat Nat,
      run step initWithTargetQueue
          [.setResult 0 1, .box (.lock (some 0)), .box (.test (some 0)), .box (.store (some 0)),
            .box (.broadcast (some 0)), .swapped 0, .limiter .enqueue, .limiter .beginDelivery,
            .setResult 1 2, .take, .box (.lock none), .box (.test none), .box (.store none),
            .box (.broadcast none), .taken, .box (.lock (some 1)), .box (.test (some 1)),
            .box (.store (some 1)), .limiter .performSetResult, .box (.broadcast (some 1)),
            .limiter .callResultBlock, .swapped 1, .limiter .enqueue] = .ok s ∧
        s.limiter.log = [.set 1, .set 2, .resultBlock 1 0] :=
    ⟨_, rfl, rfl⟩
  exact ⟨s, hrun, hlog, threads_contract hrun⟩

end RateLimiterThreads

end BromiumCoreUtils
