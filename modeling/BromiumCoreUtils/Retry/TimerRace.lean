import BromiumCoreUtils.Lib.Bag
import BromiumCoreUtils.Retry.Cancel
import BromiumCoreUtils.Timer.OneShot

/-!
# `BRURetry` and the timers of its delays

`RetryWithTimers` puts a `BRURetry` beside the `BRUTimer` objects that it has
made.  The two talk in three places.  `scheduleNextAction` makes a timer,
`cancel:` suspends it and drops the reference, and the last block of the timer
runs on the `syncQueue` of the retry and calls `timerCallback`.

The blocks of a timer hold it weakly, so a block of a timer that is no longer
referenced does nothing.  `Referenced` counts the references: `self.timer`, the
queued blocks of `suspend`, and the blocks of the timer that are running.

`cancel:` leaves a window.  The block of `suspend` keeps the timer alive until
it has run, and by then the block of `fireWithDate:postFireBlock:` may have run
as well.  `callbacks_kept_iff` says that this window is the only way to a stale
callback, and `stale_callback_fails` that a stale callback fails its assertion.
-/

namespace BromiumCoreUtils

open Machine

/-- A `BRURetry` and the timers it has made, by their addresses. -/
structure RetryWithTimers (U D K : Type) where
  retry : BRURetry U D K
  timers : Nat → BRUTimer D
  /-- The identifiers that the blocks of the timers captured. -/
  identifiers : Nat → Option U
  /-- The running blocks that hold their timer. -/
  executing : Nat → Nat

/-- The entries that concern a timer. -/
def RetryObservation.ofTimer {U D K : Type} : RetryObservation U D K → Bool
  | .schedule _ => true
  | .suspend _ => true
  | _ => false

namespace BRUTimer

variable {D : Type} {t t' : BRUTimer D} {e : Event D}

/-- The timer that `-[BRURetry scheduleNextAction]` makes. -/
def delayTimer (interval : D) : BRUTimer D :=
  scheduledTimerWithInterval interval false .intervalBetweenBlockExecutions none

/-- The fires that are on their way. -/
def onTheWay (t : BRUTimer D) : Nat :=
  t.pending.length + t.hops + t.fires.length

/-- What the blocks of a one-shot timer may do to it: no fire is added. -/
def Dwindles (t t' : BRUTimer D) : Prop :=
  t.repeats = false → t'.repeats = false ∧ t'.onTheWay ≤ t.onTheWay

theorem expiryBlock_dwindles {expiry : Expiry}
    (hstep : BRUTimer.step t (.expiryBlock expiry) = .ok t') : Dwindles t t' := by
  intro hrep
  cases step_transition hstep with
  | resume _ he => simp at he
  | dropped hmem _ _ _ =>
    have hlen := Bag.length_erase_add hmem
    refine ⟨hrep, ?_⟩
    unfold onTheWay
    simp only
    omega
  | fired hmem _ _ _ =>
    have hlen := Bag.length_erase_add hmem
    refine ⟨hrep, ?_⟩
    unfold onTheWay
    simp only
    omega

theorem hopBlock_dwindles (hstep : BRUTimer.step t .hopBlock = .ok t') : Dwindles t t' := by
  intro hrep
  cases step_transition hstep with
  | resume _ he => simp at he
  | hopBlock hpos =>
    obtain ⟨post, hhop⟩ := hopBlock_once (t := { t with hops := t.hops - 1 }) hrep
    rw [hhop]
    refine ⟨hrep, ?_⟩
    simp only [onTheWay, fireWithDate, List.length_append, List.length_singleton]
    omega

theorem runSuspend_dwindles (hstep : BRUTimer.step t .runSuspend = .ok t') :
    Dwindles t t' := by
  intro hrep
  cases step_transition hstep with
  | resume _ he => simp at he
  | runSuspend _ => exact ⟨hrep, Nat.le_refl _⟩

/-- The last block of a one-shot timer begins and ends. -/
theorem fire_spends {begun : BRUTimer D} {post : PostFireBlock} (hrep : t.repeats = false)
    (hbegin : BRUTimer.step t (.beginFire post) = .ok begun)
    (hend : BRUTimer.step begun (.endFire post) = .ok t') :
    t'.repeats = false ∧ t'.onTheWay + 1 = t.onTheWay := by
  simp only [BRUTimer.step, bind_eq_ok, enabledIf_eq_ok, pure_eq_ok] at hbegin hend
  obtain ⟨_, hmem, hbegin⟩ := hbegin
  obtain ⟨_, _, hend⟩ := hend
  have hlen := Bag.length_erase_add hmem
  have honce : begun.repeats = false := by rw [← hbegin]; exact hrep
  rw [runPostFireBlock_once (t := { begun with executing := begun.executing.erase post })
    honce] at hend
  refine ⟨by rw [← hend]; exact honce, ?_⟩
  rw [← hend, ← hbegin]
  unfold onTheWay
  simp only
  omega

end BRUTimer

namespace BRURetry

variable {U D K : Type} [DecidableEq U] [ToString U] [NSTimeInterval D]

/-! ## What the retry does to its timers -/

/-- What a block of the retry does to its timers: nothing, or it makes one, or
it suspends and drops the one that it holds. -/
inductive TimerEffect (r r' : BRURetry U D K) : Prop where
  | kept (entries : List (RetryObservation U D K)) (hlog : r'.log = r.log ++ entries)
      (hentries : ∀ o ∈ entries, o.ofTimer = false)
      (htimer : r'.timer = r.timer) (hmade : r'.timers = r.timers)
  | scheduled (timer : RetryTimer U D) (hlog : r'.log = r.log ++ [.schedule timer])
      (hnone : r.timer = none) (htimer : r'.timer = some timer)
      (haddress : timer.address = r.timers) (hmade : r'.timers = r.timers + 1)
  | released (timer : RetryTimer U D) (entries : List (RetryObservation U D K))
      (hlog : r'.log = r.log ++ .suspend timer.address :: entries)
      (hentries : ∀ o ∈ entries, o.ofTimer = false)
      (htimer : r.timer = some timer) (hnone : r'.timer = none)
      (hmade : r'.timers = r.timers) (hid : r'.identifier = none)

omit [DecidableEq U] [ToString U] [NSTimeInterval D] in
/-- Only `cancel:` and the blocks of `syncQueue` log something about a timer. -/
theorem Event.ofTimer_of_logs {e : Event U D K} {o : RetryObservation U D K}
    (h : e.logs o = true) (hcancel : ∀ id, e ≠ .cancel id) (hsync : e ≠ .runSync) :
    o.ofTimer = false := by
  cases e with
  | cancel id => exact absurd rfl (hcancel id)
  | runSync => exact absurd rfl hsync
  | _ => cases o <;> first | rfl | cases h

omit [DecidableEq U] [NSTimeInterval D] in
/-- A run that terminates leaves the timer alone. -/
theorem timerEffect_terminated (success : Bool) (error : Option NSError)
    (rest : List (RetrySyncBlock D)) (r : BRURetry U D K) :
    TimerEffect r (terminated success error { r with syncQueue := rest }) := by
  obtain ⟨entries, hlog, hentries⟩ := terminated_log success error { r with syncQueue := rest }
  refine .kept entries hlog ?_ (by simp [terminated]) (by simp [terminated])
  intro o ho
  obtain ⟨run, result, ho⟩ := hentries o ho
  rw [ho]
  rfl

theorem step_timerEffect {r r' : BRURetry U D K} {e : Event U D K}
    (hout : SingleOutstanding r) (hstep : step r e = .ok r') (he : e ≠ .timerCallback) :
    TimerEffect r r' := by
  have hkept : (∀ id, e ≠ .cancel id) → e ≠ .runSync → r'.timer = r.timer →
      r'.timers = r.timers → TimerEffect r r' := by
    intro hcancel hsync htimer hmade
    obtain ⟨entries, hlog, hentries⟩ := step_log hstep
    exact .kept entries hlog
      (fun o ho => Event.ofTimer_of_logs (hentries o ho) hcancel hsync) htimer hmade
  cases step_transition hstep with
  | startIdle _ => refine hkept (by simp) (by simp) ?_ ?_ <;> simp [record, begun]
  | startJoin _ => refine hkept (by simp) (by simp) ?_ ?_ <;> simp [record]
  | startRestore _ => refine hkept (by simp) (by simp) ?_ ?_ <;> simp [record]
  | cancelIgnored _ => exact .kept _ rfl (by simp [RetryObservation.ofTimer]) rfl rfl
  | @cancelDelay id hid hs =>
    obtain ⟨timer, htimer⟩ := Option.isSome_iff_exists.mp (hout.delay hs).2
    obtain ⟨entries, hlog, hentries⟩ := released_log r
    refine .released timer (entries ++ [.cancel id true]) ?_ ?_ htimer ?_ ?_ ?_
    · simp [record, hlog, htimer]
    · intro o ho
      rcases List.mem_append.mp ho with ho | ho
      · obtain ⟨run, result, ho⟩ := hentries o ho
        rw [ho]
        rfl
      · rw [List.mem_singleton.mp ho]
        rfl
    · simp [record, released]
    · simp [record, released, suspendTimer]
    · simp [record, released]
  | cancelWaiting _ _ _ => exact .kept _ rfl (by simp [RetryObservation.ofTimer]) rfl rfl
  | runAction _ => exact hkept (by simp) (by simp) rfl rfl
  | continuation _ => exact hkept (by simp) (by simp) rfl rfl
  | askPolicy _ _ _ _ _ => exact .kept [] (by simp) (by simp) rfl rfl
  | finish _ _ _ => exact timerEffect_terminated _ _ _ r
  | runPolicy _ => exact hkept (by simp) (by simp) rfl rfl
  | policyStop _ _ => exact timerEffect_terminated _ _ _ r
  | policyRetry _ _ hnone => exact .scheduled _ rfl hnone rfl rfl rfl
  | timerCallback _ _ => exact absurd rfl he
  | runDeferred _ => exact hkept (by simp) (by simp) rfl rfl
  | runCompletion _ => exact hkept (by simp) (by simp) rfl rfl

/-- The identifier changes to nothing, or to the one that a start has made. -/
theorem step_identifier {r r' : BRURetry U D K} {e : Event U D K}
    (hstep : step r e = .ok r') :
    r'.identifier = r.identifier ∨ r'.identifier = none ∨
      ∃ uuid completionBlock, e = .start uuid completionBlock ∧
        r'.identifier = some uuid := by
  cases step_transition hstep with
  | @startIdle uuid completion _ =>
    exact Or.inr (Or.inr ⟨uuid, completion, rfl, by simp [record, begun]⟩)
  | startJoin _ => exact Or.inl (by simp [record])
  | startRestore _ => exact Or.inl (by simp [record])
  | cancelDelay _ _ => exact Or.inr (Or.inl (by simp [record, released]))
  | finish _ _ _ => exact Or.inr (Or.inl (by simp [terminated]))
  | policyStop _ _ => exact Or.inr (Or.inl (by simp [terminated]))
  | _ => exact Or.inl rfl

/-- An identifier that was made stays in the log. -/
theorem step_initiations {r r' : BRURetry U D K} {e : Event U D K} {u : U}
    (hstep : step r e = .ok r') (hu : u ∈ initiations r.log) : u ∈ initiations r'.log := by
  obtain ⟨entries, hlog, _⟩ := step_log hstep
  rw [mem_initiations] at hu ⊢
  rw [hlog]
  exact List.mem_append_left _ hu

end BRURetry

namespace RetryWithTimers

variable {U D K : Type}

/-! ## The references to a timer -/

/-- The timer is `self.timer`. -/
def Current (c : RetryWithTimers U D K) (i : Nat) : Prop :=
  c.retry.timer.map RetryTimer.address = some i

/-- A block holds the timer. -/
def Retained (c : RetryWithTimers U D K) (i : Nat) : Prop :=
  0 < (c.timers i).suspends ∨ 0 < c.executing i

/-- The timer is alive. -/
def Referenced (c : RetryWithTimers U D K) (i : Nat) : Prop :=
  c.Current i ∨ c.Retained i

instance (c : RetryWithTimers U D K) (i : Nat) : Decidable (c.Referenced i) :=
  inferInstanceAs (Decidable (c.retry.timer.map RetryTimer.address = some i ∨
    0 < (c.timers i).suspends ∨ 0 < c.executing i))

/-! ## The machine -/

def setTimer (i : Nat) (timer : BRUTimer D) (c : RetryWithTimers U D K) :
    RetryWithTimers U D K :=
  { c with timers := Function.update c.timers i timer }

/-- A block that holds its timer begins. -/
def enter (i : Nat) (c : RetryWithTimers U D K) : RetryWithTimers U D K :=
  { c with executing := Function.update c.executing i (c.executing i + 1) }

/-- What the retry does to its timers, by the entry that it logs. -/
def perform (c : RetryWithTimers U D K) :
    RetryObservation U D K → RetryWithTimers U D K
  | .schedule timer =>
    { c with
      timers := Function.update c.timers timer.address (.delayTimer timer.interval)
      identifiers := Function.update c.identifiers timer.address timer.identifier }
  | .suspend i => c.setTimer i (c.timers i).suspend
  | _ => c

/-- The block that runs next. -/
inductive Event (U D K : Type) where
  /-- A block of the retry, other than the callback of a timer. -/
  | retry (event : BRURetry.Event U D K)
  /-- The block that `setupTimer` gave to `dispatch_after`. -/
  | expiryBlock (i : Nat) (expiry : Expiry)
  /-- The block on the global queue. -/
  | hopBlock (i : Nat)
  /-- One of these two blocks returns. -/
  | blockReturns (i : Nat)
  /-- The block of `suspend`. -/
  | runSuspend (i : Nat)
  /-- The block of `fireWithDate:postFireBlock:`, on the retry's `syncQueue`. -/
  | fireBlock (i : Nat) (postFireBlock : PostFireBlock)
deriving Repr

variable [DecidableEq U] [ToString U] [NSTimeInterval D]

/-- A new `BRURetry` has no timers, so what stands at the addresses does not
matter. -/
def initWithDelay (delay : D) : RetryWithTimers U D K where
  retry := .initWithActionBlock delay
  timers := fun _ => .initWithInterval delay false .intervalBetweenBlockExecutions none
  identifiers := fun _ => none
  executing := fun _ => 0

/-- Run one block.  The callback of a timer is a block of `syncQueue`, so no
other block of the retry runs within it. -/
def step (c : RetryWithTimers U D K) :
    Event U D K → Exec Assertion (RetryWithTimers U D K)
  | .retry .timerCallback => .error .disabled
  | .retry event => do
    let retry ← BRURetry.step c.retry event
    pure ((retry.log.drop c.retry.log.length).foldl perform { c with retry := retry })
  | .expiryBlock i expiry => do
    let timer := c.timers i
    enabledIf (expiry ∈ timer.pending)
    if c.Referenced i then
      let timer' ← BRUTimer.step timer (.expiryBlock expiry)
      pure ((c.setTimer i timer').enter i)
    else
      pure (c.setTimer i { timer with pending := timer.pending.erase expiry })
  | .hopBlock i => do
    let timer := c.timers i
    enabledIf (0 < timer.hops)
    if c.Referenced i then
      let timer' ← BRUTimer.step timer .hopBlock
      pure ((c.setTimer i timer').enter i)
    else
      pure (c.setTimer i { timer with hops := timer.hops - 1 })
  | .blockReturns i => do
    enabledIf (0 < c.executing i)
    pure { c with executing := Function.update c.executing i (c.executing i - 1) }
  | .runSuspend i => do
    let timer' ← BRUTimer.step (c.timers i) .runSuspend
    pure (c.setTimer i timer')
  | .fireBlock i postFireBlock => do
    let timer := c.timers i
    enabledIf (postFireBlock ∈ timer.fires)
    if c.Referenced i then
      let begun ← BRUTimer.step timer (.beginFire postFireBlock)
      let retry ← BRURetry.timerCallback (c.identifiers i) c.retry
      let timer' ← BRUTimer.step begun (.endFire postFireBlock)
      pure ({ c with retry := retry }.setTimer i timer')
    else
      pure (c.setTimer i { timer with fires := timer.fires.erase postFireBlock })

/-! ## What a step does -/

omit [DecidableEq U] [ToString U] [NSTimeInterval D] in
theorem foldl_perform_other (c : RetryWithTimers U D K)
    {entries : List (RetryObservation U D K)}
    (hentries : ∀ o ∈ entries, o.ofTimer = false) : entries.foldl perform c = c := by
  induction entries with
  | nil => rfl
  | cons o rest ih =>
    have ho := hentries o (by simp)
    have hsame : perform c o = c := by cases o <;> first | rfl | cases ho
    rw [List.foldl_cons, hsame]
    exact ih fun o' ho' => hentries o' (by simp [ho'])

/-- One step: a block of the retry with its effect on the timers, a block that
concerns one timer only, or a callback. -/
inductive Transition (c : RetryWithTimers U D K) :
    Event U D K → RetryWithTimers U D K → Prop where
  | kept {e : BRURetry.Event U D K} {r : BRURetry U D K}
      (hstep : BRURetry.step c.retry e = .ok r) (htimer : r.timer = c.retry.timer)
      (hmade : r.timers = c.retry.timers)
      (hsuspended : ∀ i, .suspend i ∈ r.log ↔ .suspend i ∈ c.retry.log) :
      Transition c (.retry e) { c with retry := r }
  | scheduled {e : BRURetry.Event U D K} {r : BRURetry U D K} {timer : RetryTimer U D}
      (hstep : BRURetry.step c.retry e = .ok r) (hnone : c.retry.timer = none)
      (htimer : r.timer = some timer) (haddress : timer.address = c.retry.timers)
      (hmade : r.timers = c.retry.timers + 1)
      (hsuspended : ∀ i, .suspend i ∈ r.log ↔ .suspend i ∈ c.retry.log) :
      Transition c (.retry e) (perform { c with retry := r } (.schedule timer))
  | released {e : BRURetry.Event U D K} {r : BRURetry U D K} {timer : RetryTimer U D}
      (hstep : BRURetry.step c.retry e = .ok r) (htimer : c.retry.timer = some timer)
      (hnone : r.timer = none) (hmade : r.timers = c.retry.timers)
      (hid : r.identifier = none)
      (hsuspended : ∀ i, .suspend i ∈ r.log ↔
        i = timer.address ∨ .suspend i ∈ c.retry.log) :
      Transition c (.retry e) (perform { c with retry := r } (.suspend timer.address))
  | timerBlock {e : Event U D K} {c' : RetryWithTimers U D K}
      (hretry : c'.retry = c.retry) (hids : c'.identifiers = c.identifiers)
      (htimers : ∀ i, (c.timers i).Dwindles (c'.timers i)) : Transition c e c'
  | callback {i : Nat} {post : PostFireBlock} {r : BRURetry U D K} {timer' : BRUTimer D}
      (hmem : post ∈ (c.timers i).fires) (href : c.Referenced i)
      (hcallback : BRURetry.timerCallback (c.identifiers i) c.retry = .ok r)
      (hspent : (c.timers i).repeats = false →
        timer'.repeats = false ∧ timer'.onTheWay + 1 = (c.timers i).onTheWay) :
      Transition c (.fireBlock i post) ({ c with retry := r }.setTimer i timer')

theorem retry_transition {c c' : RetryWithTimers U D K} {e : BRURetry.Event U D K}
    (hout : c.retry.SingleOutstanding) (h : step c (.retry e) = .ok c') :
    Transition c (.retry e) c' := by
  have he : e ≠ .timerCallback := by
    intro heq
    rw [heq] at h
    cases h
  have heq : step c (.retry e) = (do
      let retry ← BRURetry.step c.retry e
      pure ((retry.log.drop c.retry.log.length).foldl perform { c with retry := retry })) := by
    cases e <;> first | rfl | exact absurd rfl he
  simp only [heq, bind_eq_ok, pure_eq_ok] at h
  obtain ⟨r, hstep, h⟩ := h
  rw [← h]
  cases BRURetry.step_timerEffect hout hstep he with
  | kept entries hlog hentries htimer hmade =>
    rw [hlog, List.drop_left, foldl_perform_other _ hentries]
    refine .kept hstep htimer hmade ?_
    intro i
    rw [hlog, List.mem_append]
    constructor
    · rintro (hi | hi)
      · exact hi
      · cases hentries _ hi
    · exact Or.inl
  | scheduled timer hlog hnone htimer haddress hmade =>
    rw [hlog, List.drop_left]
    refine .scheduled hstep hnone htimer haddress hmade ?_
    intro i
    simp [hlog]
  | released timer entries hlog hentries htimer hnone hmade hid =>
    rw [hlog, List.drop_left, List.foldl_cons, foldl_perform_other _ hentries]
    refine .released hstep htimer hnone hmade hid ?_
    intro i
    have hnot : .suspend i ∉ entries := fun hi => by cases hentries _ hi
    simp [hlog, hnot, or_comm]

omit [DecidableEq U] [ToString U] [NSTimeInterval D] in
/-- A change of one timer that adds no fire to it. -/
theorem setTimer_dwindles {c : RetryWithTimers U D K} {i : Nat} {timer' : BRUTimer D}
    (h : (c.timers i).Dwindles timer') (j : Nat) :
    (c.timers j).Dwindles ((c.setTimer i timer').timers j) := by
  by_cases hj : j = i
  · rw [hj]
    simpa [setTimer] using h
  · intro hrep
    simp [setTimer, Function.update_of_ne hj, hrep]

/-- The list of steps is complete. -/
theorem step_transition {c c' : RetryWithTimers U D K} {e : Event U D K}
    (hout : c.retry.SingleOutstanding) (h : step c e = .ok c') : Transition c e c' := by
  cases e with
  | retry e => exact retry_transition hout h
  | expiryBlock i expiry =>
    simp only [step, bind_eq_ok, enabledIf_eq_ok] at h
    obtain ⟨_, hmem, h⟩ := h
    split at h
    · simp only [bind_eq_ok, pure_eq_ok] at h
      obtain ⟨timer', htimer', h⟩ := h
      rw [← h]
      exact .timerBlock rfl rfl (setTimer_dwindles (BRUTimer.expiryBlock_dwindles htimer'))
    · rw [← pure_eq_ok.mp h]
      refine .timerBlock rfl rfl (setTimer_dwindles fun hrep => ⟨hrep, ?_⟩)
      have hlen := Bag.length_erase_add hmem
      unfold BRUTimer.onTheWay
      simp only
      omega
  | hopBlock i =>
    simp only [step, bind_eq_ok, enabledIf_eq_ok] at h
    obtain ⟨_, hpos, h⟩ := h
    split at h
    · simp only [bind_eq_ok, pure_eq_ok] at h
      obtain ⟨timer', htimer', h⟩ := h
      rw [← h]
      exact .timerBlock rfl rfl (setTimer_dwindles (BRUTimer.hopBlock_dwindles htimer'))
    · rw [← pure_eq_ok.mp h]
      refine .timerBlock rfl rfl (setTimer_dwindles fun hrep => ⟨hrep, ?_⟩)
      unfold BRUTimer.onTheWay
      simp only
      omega
  | blockReturns i =>
    simp only [step, bind_eq_ok, enabledIf_eq_ok, pure_eq_ok] at h
    obtain ⟨_, _, h⟩ := h
    rw [← h]
    exact .timerBlock rfl rfl fun _ hrep => ⟨hrep, Nat.le_refl _⟩
  | runSuspend i =>
    simp only [step, bind_eq_ok, pure_eq_ok] at h
    obtain ⟨timer', htimer', h⟩ := h
    rw [← h]
    exact .timerBlock rfl rfl (setTimer_dwindles (BRUTimer.runSuspend_dwindles htimer'))
  | fireBlock i post =>
    simp only [step, bind_eq_ok, enabledIf_eq_ok] at h
    obtain ⟨_, hmem, h⟩ := h
    split at h
    · rename_i href
      simp only [bind_eq_ok, pure_eq_ok] at h
      obtain ⟨begun, hbegun, r, hcallback, timer', htimer', h⟩ := h
      rw [← h]
      exact .callback hmem href hcallback
        fun hrep => BRUTimer.fire_spends hrep hbegun htimer'
    · rw [← pure_eq_ok.mp h]
      refine .timerBlock rfl rfl (setTimer_dwindles fun hrep => ⟨hrep, ?_⟩)
      have hlen := Bag.length_erase_add hmem
      unfold BRUTimer.onTheWay
      simp only
      omega

/-! ## Every fire has an owner -/

section Owners

omit [DecidableEq U] [ToString U] [NSTimeInterval D]

/-- A timer with a fire on its way is the one that the retry holds, or one that
`cancel:` suspended. -/
structure Owned (c : RetryWithTimers U D K) : Prop where
  oneShot : ∀ i, (c.timers i).repeats = false ∧ (c.timers i).onTheWay ≤ 1
  current : ∀ timer, c.retry.timer = some timer → timer.address < c.retry.timers ∧
    c.identifiers timer.address = timer.identifier ∧
    .suspend timer.address ∉ c.retry.log
  made : ∀ i, .suspend i ∈ c.retry.log → i < c.retry.timers
  owner : ∀ i, 0 < (c.timers i).onTheWay → c.Current i ∨ .suspend i ∈ c.retry.log

theorem current_iff {c : RetryWithTimers U D K} {i : Nat} :
    c.Current i ↔ ∃ timer, c.retry.timer = some timer ∧ timer.address = i := by
  simp [Current]

/-- No callback runs for a timer that was suspended. -/
def CallsCurrent (c : RetryWithTimers U D K) (e : Event U D K) : Prop :=
  ∀ i post, e = .fireBlock i post → post ∈ (c.timers i).fires → c.Referenced i →
    .suspend i ∉ c.retry.log

/-- A queued block of `fireWithDate:postFireBlock:` is a fire on its way. -/
theorem onTheWay_of_fire {c : RetryWithTimers U D K} {i : Nat} {post : PostFireBlock}
    (hmem : post ∈ (c.timers i).fires) : 0 < (c.timers i).onTheWay := by
  have hpos := List.length_pos_of_mem hmem
  unfold BRUTimer.onTheWay
  omega

namespace Owned

variable {c : RetryWithTimers U D K} {r : BRURetry U D K}

/-- A block of the retry that leaves the timers alone. -/
theorem kept (h : Owned c) (htimer : r.timer = c.retry.timer)
    (hmade : r.timers = c.retry.timers)
    (hsuspended : ∀ i, .suspend i ∈ r.log ↔ .suspend i ∈ c.retry.log) :
    Owned { c with retry := r } := by
  refine
    { oneShot := h.oneShot, current := ?_, made := ?_, owner := ?_ }
  · intro timer ht
    rw [hsuspended, hmade]
    exact h.current timer (htimer ▸ ht)
  · intro i hi
    rw [hmade]
    exact h.made i ((hsuspended i).mp hi)
  · intro i hi
    rw [hsuspended, Current, htimer]
    exact h.owner i hi

/-- A new timer stands at an address that no timer had before. -/
theorem scheduled (h : Owned c) {timer : RetryTimer U D} (hnone : c.retry.timer = none)
    (htimer : r.timer = some timer) (haddress : timer.address = c.retry.timers)
    (hmade : r.timers = c.retry.timers + 1)
    (hsuspended : ∀ i, .suspend i ∈ r.log ↔ .suspend i ∈ c.retry.log) :
    Owned (perform { c with retry := r } (.schedule timer)) := by
  refine
    { oneShot := ?_, current := ?_, made := ?_, owner := ?_ }
  · intro i
    by_cases hi : i = timer.address
    · rw [hi]
      simp only [perform, Function.update_self]
      exact ⟨rfl, Nat.le_refl 1⟩
    · simp only [perform, Function.update_of_ne hi]
      exact h.oneShot i
  · intro timer' ht
    obtain rfl : timer = timer' := by simpa [perform, htimer] using ht
    simp only [perform, Function.update_self, hmade]
    refine ⟨by omega, trivial, ?_⟩
    intro hi
    have hlt := h.made _ ((hsuspended _).mp hi)
    omega
  · intro i hi
    simp only [perform, hmade]
    have hlt := h.made i ((hsuspended i).mp hi)
    omega
  · intro i hi
    by_cases haddr : i = timer.address
    · left
      simp [Current, perform, htimer, haddr]
    · right
      simp only [perform, Function.update_of_ne haddr] at hi
      rcases h.owner i hi with hcur | hsus
      · simp [Current, hnone] at hcur
      · exact (hsuspended i).mpr hsus

/-- The timer that the retry held is a suspended one from now on. -/
theorem released (h : Owned c) {timer : RetryTimer U D} (htimer : c.retry.timer = some timer)
    (hnone : r.timer = none) (hmade : r.timers = c.retry.timers)
    (hsuspended : ∀ i, .suspend i ∈ r.log ↔ i = timer.address ∨ .suspend i ∈ c.retry.log) :
    Owned (perform { c with retry := r } (.suspend timer.address)) := by
  have htimers : ∀ i, ((perform { c with retry := r } (.suspend timer.address)).timers
      i).onTheWay = (c.timers i).onTheWay ∧
      ((perform { c with retry := r } (.suspend timer.address)).timers i).repeats =
        (c.timers i).repeats := by
    intro i
    by_cases hi : i = timer.address
    · rw [hi]
      simp [perform, setTimer, BRUTimer.suspend, BRUTimer.onTheWay]
    · simp [perform, setTimer, Function.update_of_ne hi]
  refine
    { oneShot := ?_, current := ?_, made := ?_, owner := ?_ }
  · intro i
    rw [(htimers i).1, (htimers i).2]
    exact h.oneShot i
  · intro timer' ht
    simp [perform, setTimer, hnone] at ht
  · intro i hi
    simp only [perform, setTimer, hmade]
    rcases (hsuspended i).mp hi with hi | hi
    · rw [hi]
      exact (h.current timer htimer).1
    · exact h.made i hi
  · intro i hi
    right
    rw [(htimers i).1] at hi
    refine (hsuspended i).mpr ?_
    rcases h.owner i hi with hcur | hsus
    · obtain ⟨timer', ht, haddr⟩ := current_iff.mp hcur
      rw [htimer] at ht
      injection ht with ht
      exact Or.inl (by rw [← haddr, ht])
    · exact Or.inr hsus

/-- A block of the timers adds no fire. -/
theorem timerBlock {c' : RetryWithTimers U D K} (h : Owned c) (hretry : c'.retry = c.retry)
    (hids : c'.identifiers = c.identifiers)
    (htimers : ∀ i, (c.timers i).Dwindles (c'.timers i)) : Owned c' := by
  refine
    { oneShot := ?_, current := ?_, made := ?_, owner := ?_ }
  · intro i
    have hle := htimers i (h.oneShot i).1
    have hone := (h.oneShot i).2
    exact ⟨hle.1, by omega⟩
  · rw [hretry, hids]
    exact h.current
  · rw [hretry]
    exact h.made
  · intro i hi
    rw [Current, hretry]
    have hle := htimers i (h.oneShot i).1
    exact h.owner i (by omega)

/-- An admitted callback is the one of the timer that the retry holds. -/
theorem current_of_calls (h : Owned c) {i : Nat} {post : PostFireBlock}
    (he : CallsCurrent c (.fireBlock i post)) (hmem : post ∈ (c.timers i).fires)
    (href : c.Referenced i) : c.Current i := by
  rcases h.owner i (onTheWay_of_fire hmem) with hcur | hsus
  · exact hcur
  · exact absurd hsus (he i post rfl hmem href)

end Owned

end Owners

omit [DecidableEq U] [ToString U] in
theorem owned_init (delay : D) : Owned (initWithDelay delay : RetryWithTimers U D K) where
  oneShot _ := ⟨rfl, Nat.zero_le _⟩
  current _ h := by cases h
  made _ h := by cases h
  owner _ h := absurd h (Nat.lt_irrefl 0)

omit [ToString U] [NSTimeInterval D] in
/-- The one fire of the timer is spent. -/
theorem Owned.callback {c : RetryWithTimers U D K} {r : BRURetry U D K} (h : Owned c)
    {i : Nat} {timer' : BRUTimer D} (hcur : c.Current i)
    (hcallback : BRURetry.timerCallback (c.identifiers i) c.retry = .ok r)
    (hspent : timer'.repeats = false ∧ timer'.onTheWay + 1 = (c.timers i).onTheWay) :
    Owned ({ c with retry := r }.setTimer i timer') := by
  have hone := (h.oneShot i).2
  simp only [BRURetry.timerCallback, BRURetry.performAction, bind_eq_ok,
    assertThat_eq_ok, pure_eq_ok] at hcallback
  obtain ⟨_, _, _, _, hr⟩ := hcallback
  have hnone : r.timer = none := by rw [← hr]
  have hmade : r.timers = c.retry.timers := by rw [← hr]
  have hsuspended : ∀ j, .suspend j ∈ r.log ↔ .suspend j ∈ c.retry.log := by
    intro j
    rw [← hr]
    simp
  refine
    { oneShot := ?_, current := ?_, made := ?_, owner := ?_ }
  · intro j
    by_cases hj : j = i
    · rw [hj]
      simp only [setTimer, Function.update_self]
      exact ⟨hspent.1, by omega⟩
    · simp only [setTimer, Function.update_of_ne hj]
      exact h.oneShot j
  · intro timer ht
    simp [setTimer, hnone] at ht
  · intro j hj
    simp only [setTimer, hmade]
    exact h.made j ((hsuspended j).mp hj)
  · intro j hj
    by_cases hji : j = i
    · rw [hji] at hj
      simp only [setTimer, Function.update_self] at hj
      omega
    · simp only [setTimer, Function.update_of_ne hji] at hj
      rcases h.owner j hj with hcur' | hsus
      · rw [Current, show c.retry.timer.map RetryTimer.address = some i from hcur] at hcur'
        injection hcur' with heq
        exact absurd heq.symm hji
      · exact Or.inr ((hsuspended j).mpr hsus)

/-- One admitted step keeps the owners. -/
theorem step_owned {c c' : RetryWithTimers U D K} {e : Event U D K}
    (hout : c.retry.SingleOutstanding) (h : Owned c) (he : CallsCurrent c e)
    (hstep : step c e = .ok c') : Owned c' := by
  cases step_transition hout hstep with
  | kept _ htimer hmade hsuspended => exact h.kept htimer hmade hsuspended
  | scheduled _ hnone htimer haddress hmade hsuspended =>
    exact h.scheduled hnone htimer haddress hmade hsuspended
  | released _ htimer hnone hmade _ hsuspended =>
    exact h.released htimer hnone hmade hsuspended
  | timerBlock hretry hids htimers => exact h.timerBlock hretry hids htimers
  | @callback i _ _ _ hmem href hcallback hspent =>
    exact h.callback (h.current_of_calls he hmem href) hcallback (hspent (h.oneShot i).1)

/-- The callback of the timer that the retry holds is a step of the retry. -/
theorem callback_eq_step {c : RetryWithTimers U D K} (h : Owned c) {i : Nat}
    (hcur : c.Current i) :
    BRURetry.timerCallback (c.identifiers i) c.retry = BRURetry.step c.retry .timerCallback := by
  obtain ⟨timer, htimer, haddr⟩ := current_iff.mp hcur
  rw [← haddr, (h.current timer htimer).2.1]
  simp [BRURetry.step, htimer]

/-- The retry behaves as it does on its own, and every fire has an owner. -/
def Sound (delay : D) (c : RetryWithTimers U D K) : Prop :=
  Reachable BRURetry.step (.initWithActionBlock delay) c.retry ∧ Owned c

/-- The composition refines the retry on its own, step by step. -/
theorem step_sound {delay : D} {c c' : RetryWithTimers U D K} {e : Event U D K}
    (h : Sound delay c) (he : CallsCurrent c e) (hstep : step c e = .ok c') :
    Sound delay c' := by
  obtain ⟨hreach, howned⟩ := h
  obtain ⟨hout, _⟩ := BRURetry.invariants_of_reachable hreach
  refine ⟨?_, step_owned hout howned he hstep⟩
  cases step_transition hout hstep with
  | kept hr _ _ _ => exact hreach.next hr
  | scheduled hr _ _ _ _ _ => exact hreach.next hr
  | released hr _ _ _ _ _ => exact hreach.next hr
  | timerBlock hretry _ _ =>
    rw [hretry]
    exact hreach
  | @callback i post r timer' hmem href hcallback _ =>
    rw [callback_eq_step howned (howned.current_of_calls he hmem href)] at hcallback
    exact hreach.next hcallback

/-! ## The callback and the window of `cancel:` -/

/-- A callback runs in Delay under the identifier it captured, for a timer that
`cancel:` has not suspended, and its assertion holds. -/
def CallbackKept (c : RetryWithTimers U D K) (e : Event U D K) : Prop :=
  ∀ i post, e = .fireBlock i post → post ∈ (c.timers i).fires → c.Referenced i →
    c.retry.state = .delay ∧ isEqual (c.identifiers i) c.retry.identifier = true ∧
      .suspend i ∉ c.retry.log ∧ step c e ≠ .error (.failed .unexpectedCallback)

/-- The last block of a timer that `cancel:` suspended runs after the block of
its `suspend`, and while no block of the timer is running. -/
def CancelledFireIsLate (c : RetryWithTimers U D K) (e : Event U D K) : Prop :=
  ∀ i post, e = .fireBlock i post → post ∈ (c.timers i).fires →
    .suspend i ∈ c.retry.log → ¬ c.Retained i

/-- The two conditions agree in a sound state. -/
theorem callbackKept_iff {delay : D} {c : RetryWithTimers U D K} (h : Sound delay c)
    (e : Event U D K) : CallbackKept c e ↔ CancelledFireIsLate c e := by
  obtain ⟨hreach, howned⟩ := h
  constructor
  · intro hkept i post he hmem hsus hret
    exact (hkept i post he hmem (Or.inr hret)).2.2.1 hsus
  · intro hlate i post he hmem href
    have hnot : .suspend i ∉ c.retry.log := by
      intro hsus
      rcases href with hcur | hret
      · obtain ⟨timer, htimer, haddr⟩ := current_iff.mp hcur
        exact (howned.current timer htimer).2.2 (haddr ▸ hsus)
      · exact hlate i post he hmem hsus hret
    have hcur : c.Current i := by
      rcases howned.owner i (onTheWay_of_fire hmem) with hcur | hsus
      · exact hcur
      · exact absurd hsus hnot
    obtain ⟨timer, htimer, haddr⟩ := current_iff.mp hcur
    obtain ⟨hout, hcons⟩ := BRURetry.invariants_of_reachable hreach
    have hs := (hout.delay_of_timer (by rw [htimer]; simp)).1
    have hids : c.identifiers i = c.retry.identifier := by
      rw [← haddr, (howned.current timer htimer).2.1]
      exact hcons.timer timer htimer
    have heq : isEqual (c.identifiers i) c.retry.identifier = true := by
      rw [hids]
      exact isEqual_iff.mpr ⟨rfl, (hcons.running (by rw [hs]; simp)).1⟩
    refine ⟨hs, heq, hnot, ?_⟩
    intro hfail
    rw [he] at hfail
    simp [step, href, BRUTimer.step, BRURetry.timerCallback, BRURetry.performAction,
      heq] at hfail

/-- The callbacks of a run are kept exactly if no suspended timer fires through
the window. -/
theorem callbacks_kept_iff (delay : D) (events : List (Event U D K)) :
    AllSteps step CallbackKept (initWithDelay delay) events ↔
      AllSteps step CancelledFireIsLate (initWithDelay delay) events := by
  refine allSteps_iff_of_invariant (I := Sound delay) (fun _ e hc => callbackKept_iff hc e) ?_ ?_
  · intro c e c' hkept hsound hstep
    refine step_sound hsound ?_ hstep
    intro i post he hmem href
    exact (hkept i post he hmem href).2.2.1
  · exact ⟨.refl _, owned_init delay⟩

/-- An attempt fails, its timer expires, and the run is cancelled while the fire
is on its way.  The block of `suspend` is still queued when the last block of
the timer runs. -/
theorem callback_fails_after_cancel : ∃ c : RetryWithTimers Nat Nat Nat,
    run step (initWithDelay 5)
        [.retry (.start 7 none), .retry .runAction,
          .retry (.continuation 1 ⟨false, some ⟨"d", 1, []⟩, .transient⟩),
          .retry .runSync, .retry (.runPolicy .retry 3), .retry .runSync,
          .expiryBlock 0 ⟨0, 1⟩, .blockReturns 0, .retry (.cancel 7),
          .hopBlock 0, .blockReturns 0] = .ok c ∧
      c.retry.state = .idle ∧ .cancel 7 true ∈ c.retry.log ∧
      PostFireBlock.setupTimerBlock ∈ (c.timers 0).fires ∧ c.Referenced 0 ∧
      step c (.fireBlock 0 .setupTimerBlock) = .error (.failed .unexpectedCallback) ∧
      ¬ CallbackKept c (.fireBlock 0 .setupTimerBlock) := by
  obtain ⟨c, hrun, hs, hmem, hfire, href, hfail⟩ : ∃ c : RetryWithTimers Nat Nat Nat,
      run step (initWithDelay 5)
          [.retry (.start 7 none), .retry .runAction,
            .retry (.continuation 1 ⟨false, some ⟨"d", 1, []⟩, .transient⟩),
            .retry .runSync, .retry (.runPolicy .retry 3), .retry .runSync,
            .expiryBlock 0 ⟨0, 1⟩, .blockReturns 0, .retry (.cancel 7),
            .hopBlock 0, .blockReturns 0] = .ok c ∧
        c.retry.state = .idle ∧ .cancel 7 true ∈ c.retry.log ∧
        PostFireBlock.setupTimerBlock ∈ (c.timers 0).fires ∧ c.Referenced 0 ∧
        step c (.fireBlock 0 .setupTimerBlock) = .error (.failed .unexpectedCallback) :=
    ⟨_, rfl, rfl, by decide, by decide, by decide, rfl⟩
  refine ⟨c, hrun, hs, hmem, hfire, href, hfail, ?_⟩
  intro hkept
  exact (hkept 0 _ rfl hfire href).2.2.2 hfail

/-! ## What happens in the window -/

/-- A start makes an identifier that no run had before. -/
def FreshStart (c : RetryWithTimers U D K) (e : Event U D K) : Prop :=
  ∀ uuid completionBlock, e = .retry (.start uuid completionBlock) →
    uuid ∉ BRURetry.initiations c.retry.log

/-- A timer that was suspended captured the identifier of an earlier run. -/
def Outdated (c : RetryWithTimers U D K) : Prop :=
  ∀ i, .suspend i ∈ c.retry.log → ∃ u, c.identifiers i = some u ∧
    u ∈ BRURetry.initiations c.retry.log ∧ c.retry.identifier ≠ some u

omit [ToString U] [NSTimeInterval D] [DecidableEq U] in
/-- An identifier of an earlier run stays one. -/
theorem Outdated.congr {c c' : RetryWithTimers U D K} (h : Outdated c)
    (hids : ∀ i, .suspend i ∈ c.retry.log → c'.identifiers i = c.identifiers i)
    (hsuspended : ∀ i, .suspend i ∈ c'.retry.log → .suspend i ∈ c.retry.log)
    (hmade : ∀ u, u ∈ BRURetry.initiations c.retry.log →
      u ∈ BRURetry.initiations c'.retry.log ∧
        (c.retry.identifier ≠ some u → c'.retry.identifier ≠ some u)) : Outdated c' := by
  intro i hi
  obtain ⟨u, hu, hmem, hne⟩ := h i (hsuspended i hi)
  refine ⟨u, ?_, (hmade u hmem).1, (hmade u hmem).2 hne⟩
  rw [hids i (hsuspended i hi)]
  exact hu

/-- A block of the retry brings back no identifier that a run had before. -/
theorem initiations_kept {c : RetryWithTimers U D K} {e : BRURetry.Event U D K}
    {r : BRURetry U D K} (hfresh : FreshStart c (.retry e))
    (hstep : BRURetry.step c.retry e = .ok r) {u : U}
    (hu : u ∈ BRURetry.initiations c.retry.log) :
    u ∈ BRURetry.initiations r.log ∧
      (c.retry.identifier ≠ some u → r.identifier ≠ some u) := by
  refine ⟨BRURetry.step_initiations hstep hu, ?_⟩
  intro hne
  rcases BRURetry.step_identifier hstep with hid | hid | ⟨uuid, completion, he, hid⟩
  · rw [hid]
    exact hne
  · rw [hid]
    simp
  · rw [hid]
    intro heq
    injection heq with heq
    exact hfresh uuid completion (by rw [he]) (heq ▸ hu)

theorem step_outdated {delay : D} {c c' : RetryWithTimers U D K} {e : Event U D K}
    (hsound : Sound delay c) (h : Outdated c) (hfresh : FreshStart c e)
    (hstep : step c e = .ok c') : Outdated c' := by
  obtain ⟨hreach, howned⟩ := hsound
  obtain ⟨hout, hcons⟩ := BRURetry.invariants_of_reachable hreach
  cases step_transition hout hstep with
  | kept hr _ _ hsuspended =>
    exact h.congr (fun _ _ => rfl) (fun i => (hsuspended i).mp)
      fun u => initiations_kept hfresh hr
  | @scheduled e r timer hr _ _ haddress _ hsuspended =>
    refine h.congr ?_ (fun i => (hsuspended i).mp) fun u => initiations_kept hfresh hr
    intro i hi
    have hne : i ≠ timer.address := by
      have hlt := howned.made i hi
      omega
    simp [perform, Function.update_of_ne hne]
  | @released e r timer hr htimer _ _ hid hsuspended =>
    intro i hi
    rcases (hsuspended i).mp hi with hi | hi
    · -- the timer of the run that this step cancels
      have hs := (hout.delay_of_timer (by rw [htimer]; simp)).1
      obtain ⟨u, hu⟩ := Option.isSome_iff_exists.mp (hcons.running (by rw [hs]; simp)).1
      refine ⟨u, ?_, ?_, ?_⟩
      · rw [hi, ← hu, ← hcons.timer timer htimer]
        exact (howned.current timer htimer).2.1
      · exact BRURetry.step_initiations hr (BRURetry.mem_initiations.mpr (hcons.start_mem hu))
      · simp [perform, setTimer, hid]
    · obtain ⟨u, hu, hmem, hne⟩ := h i hi
      exact ⟨u, hu, initiations_kept hfresh hr hmem |>.1,
        (initiations_kept hfresh hr hmem).2 hne⟩
  | timerBlock hretry hids _ =>
    intro i hi
    rw [hretry] at hi
    rw [hretry, hids]
    exact h i hi
  | @callback i post r timer' _ _ hcallback _ =>
    simp only [BRURetry.timerCallback, BRURetry.performAction, bind_eq_ok,
      assertThat_eq_ok, pure_eq_ok] at hcallback
    obtain ⟨_, _, _, _, hr⟩ := hcallback
    refine h.congr (fun _ _ => rfl) ?_ ?_
    · intro j hj
      rw [setTimer, ← hr] at hj
      simpa using hj
    · intro u hu
      rw [setTimer, ← hr]
      refine ⟨?_, fun hne => hne⟩
      rw [BRURetry.mem_initiations] at hu ⊢
      exact List.mem_append_left _ hu

/-- As long as the identifiers are fresh, the first callback that runs through
the window fails the assertion of its block. -/
theorem stale_callback_fails {delay : D} {events : List (Event U D K)}
    {c : RetryWithTimers U D K} {i : Nat} {post : PostFireBlock}
    (hadmitted : AllSteps step (fun c e => CancelledFireIsLate c e ∧ FreshStart c e)
      (initWithDelay delay) events)
    (hrun : run step (initWithDelay delay) events = .ok c)
    (hmem : post ∈ (c.timers i).fires) (hsus : .suspend i ∈ c.retry.log)
    (hret : c.Retained i) :
    step c (.fireBlock i post) = .error (.failed .unexpectedCallback) := by
  have hinv : Sound delay c ∧ Outdated c := by
    refine run_invariant_of_allSteps (I := fun c => Sound delay c ∧ Outdated c) ?_ ?_
      hadmitted hrun
    · intro c e c' hP hinv hstep
      refine ⟨step_sound hinv.1 ?_ hstep, step_outdated hinv.1 hinv.2 hP.2 hstep⟩
      intro i post he hmem href
      exact ((callbackKept_iff hinv.1 e).mpr hP.1 i post he hmem href).2.2.1
    · exact ⟨⟨.refl _, owned_init delay⟩, fun i hi => by cases hi⟩
  obtain ⟨u, hu, _, hne⟩ := hinv.2 i hsus
  have hno : isEqual (c.identifiers i) c.retry.identifier = false := by
    rw [Bool.eq_false_iff]
    intro heq
    exact hne (by rw [← (isEqual_iff.mp heq).1, hu])
  have href : c.Referenced i := Or.inr hret
  simp [step, href, BRUTimer.step, BRURetry.timerCallback, hno, hmem, assertThat, enabledIf,
    bind, Except.bind, pure, Except.pure]

end RetryWithTimers

end BromiumCoreUtils
