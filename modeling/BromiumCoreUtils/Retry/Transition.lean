import BromiumCoreUtils.Retry.Basic

/-!
# What a step of `BRURetry` does

`Transition` lists the steps: one constructor for each branch that a block can
take, with the branch's condition and the state it leaves.  `step_transition`
says that the list is complete, so an invariant is proved by cases on
`Transition` and never unfolds a method again.

The states after the two branches of `handleResult`, after the Delay branch of
`cancel:` and after the Idle branch of a start have a name each:
`terminated`, `scheduled`, `released` and `begun`.
-/

namespace BromiumCoreUtils

open Machine

namespace BRURetry

variable {U D K : Type} [DecidableEq U] [ToString U] [NSTimeInterval D]

/-! ## Registration and resolution change two fields -/

section Fields

omit [DecidableEq U] [ToString U] [NSTimeInterval D]

variable (r : BRURetry U D K) (block : K) (deferred : Option Nat)
  (result : BRURetryResult)

@[simp] theorem thenOnDeferred_delay : (r.thenOnDeferred block).delay = r.delay := by
  unfold thenOnDeferred; split <;> rfl

@[simp] theorem thenOnDeferred_timer : (r.thenOnDeferred block).timer = r.timer := by
  unfold thenOnDeferred; split <;> rfl

@[simp] theorem thenOnDeferred_attempt :
    (r.thenOnDeferred block).attempt = r.attempt := by
  unfold thenOnDeferred; split <;> rfl

@[simp] theorem thenOnDeferred_state : (r.thenOnDeferred block).state = r.state := by
  unfold thenOnDeferred; split <;> rfl

@[simp] theorem thenOnDeferred_currentDelay :
    (r.thenOnDeferred block).currentDelay = r.currentDelay := by
  unfold thenOnDeferred; split <;> rfl

@[simp] theorem thenOnDeferred_identifier :
    (r.thenOnDeferred block).identifier = r.identifier := by
  unfold thenOnDeferred; split <;> rfl

@[simp] theorem thenOnDeferred_deferred :
    (r.thenOnDeferred block).deferred = r.deferred := by
  unfold thenOnDeferred; split <;> rfl

@[simp] theorem thenOnDeferred_syncQueue :
    (r.thenOnDeferred block).syncQueue = r.syncQueue := by
  unfold thenOnDeferred; split <;> rfl

@[simp] theorem thenOnDeferred_targetQueue :
    (r.thenOnDeferred block).targetQueue = r.targetQueue := by
  unfold thenOnDeferred; split <;> rfl

@[simp] theorem thenOnDeferred_continuations :
    (r.thenOnDeferred block).continuations = r.continuations := by
  unfold thenOnDeferred; split <;> rfl

@[simp] theorem thenOnDeferred_runs : (r.thenOnDeferred block).runs = r.runs := by
  unfold thenOnDeferred; split <;> rfl

@[simp] theorem thenOnDeferred_timers : (r.thenOnDeferred block).timers = r.timers := by
  unfold thenOnDeferred; split <;> rfl

@[simp] theorem resolve_delay : (r.resolve deferred result).delay = r.delay := by
  unfold resolve; split <;> rfl

@[simp] theorem resolve_timer : (r.resolve deferred result).timer = r.timer := by
  unfold resolve; split <;> rfl

@[simp] theorem resolve_attempt : (r.resolve deferred result).attempt = r.attempt := by
  unfold resolve; split <;> rfl

@[simp] theorem resolve_state : (r.resolve deferred result).state = r.state := by
  unfold resolve; split <;> rfl

@[simp] theorem resolve_currentDelay :
    (r.resolve deferred result).currentDelay = r.currentDelay := by
  unfold resolve; split <;> rfl

@[simp] theorem resolve_identifier :
    (r.resolve deferred result).identifier = r.identifier := by
  unfold resolve; split <;> rfl

@[simp] theorem resolve_deferred :
    (r.resolve deferred result).deferred = r.deferred := by
  unfold resolve; split <;> rfl

@[simp] theorem resolve_syncQueue :
    (r.resolve deferred result).syncQueue = r.syncQueue := by
  unfold resolve; split <;> rfl

@[simp] theorem resolve_targetQueue :
    (r.resolve deferred result).targetQueue = r.targetQueue := by
  unfold resolve; split <;> rfl

@[simp] theorem resolve_continuations :
    (r.resolve deferred result).continuations = r.continuations := by
  unfold resolve; split <;> rfl

@[simp] theorem resolve_runs : (r.resolve deferred result).runs = r.runs := by
  unfold resolve; split <;> rfl

@[simp] theorem resolve_timers : (r.resolve deferred result).timers = r.timers := by
  unfold resolve; split <;> rfl

@[simp] theorem resolve_thenBlocks :
    (r.resolve deferred result).thenBlocks = r.thenBlocks := by
  unfold resolve; split <;> rfl

/-- The completion block of a start, if it has one, joins the current run. -/
def withCompletion (completionBlock : Option K) (r : BRURetry U D K) : BRURetry U D K :=
  match completionBlock with
  | none => r
  | some block => r.thenOnDeferred block

variable (completion : Option K)

@[simp] theorem withCompletion_timer :
    (r.withCompletion completion).timer = r.timer := by
  cases completion <;> simp [withCompletion]

@[simp] theorem withCompletion_attempt :
    (r.withCompletion completion).attempt = r.attempt := by
  cases completion <;> simp [withCompletion]

@[simp] theorem withCompletion_state :
    (r.withCompletion completion).state = r.state := by
  cases completion <;> simp [withCompletion]

@[simp] theorem withCompletion_identifier :
    (r.withCompletion completion).identifier = r.identifier := by
  cases completion <;> simp [withCompletion]

@[simp] theorem withCompletion_deferred :
    (r.withCompletion completion).deferred = r.deferred := by
  cases completion <;> simp [withCompletion]

@[simp] theorem withCompletion_syncQueue :
    (r.withCompletion completion).syncQueue = r.syncQueue := by
  cases completion <;> simp [withCompletion]

@[simp] theorem withCompletion_targetQueue :
    (r.withCompletion completion).targetQueue = r.targetQueue := by
  cases completion <;> simp [withCompletion]

@[simp] theorem withCompletion_continuations :
    (r.withCompletion completion).continuations = r.continuations := by
  cases completion <;> simp [withCompletion]

@[simp] theorem withCompletion_delay :
    (r.withCompletion completion).delay = r.delay := by
  cases completion <;> simp [withCompletion]

@[simp] theorem withCompletion_currentDelay :
    (r.withCompletion completion).currentDelay = r.currentDelay := by
  cases completion <;> simp [withCompletion]

@[simp] theorem withCompletion_runs :
    (r.withCompletion completion).runs = r.runs := by
  cases completion <;> simp [withCompletion]

@[simp] theorem withCompletion_timers :
    (r.withCompletion completion).timers = r.timers := by
  cases completion <;> simp [withCompletion]

/-! ## The log grows -/

/-- A registration is the only entry that a completion block adds. -/
theorem withCompletion_log : ∃ entries,
    (r.withCompletion completion).log = r.log ++ entries ∧
      ∀ o ∈ entries, ∃ run block, o = .register run block := by
  cases completion with
  | none => exact ⟨[], by simp [withCompletion]⟩
  | some block =>
    cases hd : r.deferred with
    | none => exact ⟨[], by simp [withCompletion, thenOnDeferred, hd]⟩
    | some run =>
      refine ⟨[.register run ⟨r.thenBlocks, block⟩], ?_, ?_⟩
      · simp [withCompletion, thenOnDeferred, hd]
      · intro o ho
        exact ⟨run, _, List.mem_singleton.mp ho⟩

@[simp] theorem resolve_log :
    (r.resolve deferred result).log =
      r.log ++ (deferred.map fun run => .resolve run result).toList := by
  unfold resolve; split <;> simp

end Fields

/-! ## The states after a branch -/

/-- After the Idle branch of a start. -/
def begun (uuid : U) (r : BRURetry U D K) : BRURetry U D K :=
  { r with
    deferreds := Function.update r.deferreds r.runs .init
    runs := r.runs + 1
    deferred := some r.runs
    identifier := some uuid
    state := .activeWaiting
    attempt := (r.attempt + 1) % 2 ^ 64
    targetQueue := r.targetQueue ++ [.action ((r.attempt + 1) % 2 ^ 64)]
    log := r.log ++ [.performAction ((r.attempt + 1) % 2 ^ 64)] }

/-- What a terminating `handleResult` resolves the deferred with. -/
def finalResult (success : Bool) (error : Option NSError) (r : BRURetry U D K) :
    BRURetryResult where
  success := success
  error :=
    if !success && r.state == .activeCancelling then
      some (cancellationErrorWithIdentifier r.identifier)
    else error

/-- After the terminating branch of `handleResult`. -/
def terminated (success : Bool) (error : Option NSError) (r : BRURetry U D K) :
    BRURetry U D K :=
  BRURetry.resolve r.deferred (r.finalResult success error)
    { r with
      state := .idle
      attempt := 0
      currentDelay := r.delay
      identifier := none
      deferred := none }

/-- After the other branch of `handleResult`. -/
def scheduled (nextDelay : D) (r : BRURetry U D K) : BRURetry U D K :=
  { r with
    currentDelay := nextDelay
    timer := some ⟨r.timers, nextDelay, r.identifier⟩
    timers := r.timers + 1
    state := .delay
    log := r.log ++ [.schedule ⟨r.timers, nextDelay, r.identifier⟩] }

/-- After the Delay branch of `cancel:`. -/
def released (r : BRURetry U D K) : BRURetry U D K :=
  BRURetry.resolve r.deferred
    ⟨false, some (cancellationErrorWithIdentifier r.identifier)⟩
    { r.suspendTimer with
      timer := none
      state := .idle
      identifier := none
      attempt := 0
      currentDelay := r.delay
      deferred := none }

/-- After `performAction` in the timer's block. -/
def resumed (r : BRURetry U D K) : BRURetry U D K :=
  { r with
    timer := none
    state := .activeWaiting
    attempt := (r.attempt + 1) % 2 ^ 64
    targetQueue := r.targetQueue ++ [.action ((r.attempt + 1) % 2 ^ 64)]
    log := r.log ++ [.performAction ((r.attempt + 1) % 2 ^ 64)] }

/-- `handleResult` terminates when it is told to, or when the run is being
cancelled. -/
def Terminates (success : Bool) (response : BRURetryPolicyResponse)
    (r : BRURetry U D K) : Prop :=
  success = true ∨ r.state = .activeCancelling ∨ response = .stop

omit [DecidableEq U] in
theorem handleResult_eq (success : Bool) (error : Option NSError)
    (response : BRURetryPolicyResponse) (nextDelay : D) (r : BRURetry U D K) :
    (Terminates success response r → handleResult success error response nextDelay r =
      (do checkInvariants (r.terminated success error)
          pure (r.terminated success error))) ∧
    (¬ Terminates success response r → handleResult success error response nextDelay r =
      (do assertThat (r.timer = none) .alreadyScheduled
          checkInvariants (r.scheduled nextDelay)
          pure (r.scheduled nextDelay))) := by
  constructor
  · intro h
    have hterm : (success || r.state == .activeCancelling || response == .stop) = true := by
      simpa [Terminates, or_assoc] using h
    simp [handleResult, hterm, terminated, finalResult]
  · intro h
    have hterm : (success || r.state == .activeCancelling || response == .stop) = false := by
      simpa [Terminates, not_or, and_assoc] using h
    simp [handleResult, hterm, scheduleNextAction, scheduled]

/-! ## The list of steps -/

/-- One step, by the branch that its block takes. -/
inductive Transition : BRURetry U D K → Event U D K → BRURetry U D K → Prop where
  | startIdle {r : BRURetry U D K} {uuid : U} {completion : Option K}
      (hs : r.state = .idle) :
      Transition r (.start uuid completion)
        (((r.begun uuid).withCompletion completion).record (.start .idle (some uuid)))
  | startJoin {r : BRURetry U D K} {uuid : U} {completion : Option K}
      (hs : r.state = .delay ∨ r.state = .activeWaiting) :
      Transition r (.start uuid completion)
        ((r.withCompletion completion).record (.start r.state none))
  | startRestore {r : BRURetry U D K} {uuid : U} {completion : Option K}
      (hs : r.state = .activeCancelling) :
      Transition r (.start uuid completion)
        ((withCompletion completion { r with state := .activeWaiting }).record
          (.start .activeCancelling r.identifier))
  | cancelIgnored {r : BRURetry U D K} {id : U}
      (h : r.identifier ≠ some id ∨ r.state = .idle ∨ r.state = .activeCancelling) :
      Transition r (.cancel id) (r.record (.cancel id false))
  | cancelDelay {r : BRURetry U D K} {id : U} (hid : r.identifier = some id)
      (hs : r.state = .delay) :
      Transition r (.cancel id) (r.released.record (.cancel id true))
  | cancelWaiting {r : BRURetry U D K} {id : U} (hid : r.identifier = some id)
      (hs : r.state = .activeWaiting)
      (hinv : invariantsHold { r with state := .activeCancelling } = true) :
      Transition r (.cancel id)
        (record (.cancel id true) { r with state := .activeCancelling })
  | runAction {r : BRURetry U D K} {attempt : Nat} {rest : List (RetryTargetBlock D K)}
      (hq : r.targetQueue = .action attempt :: rest) :
      Transition r .runAction
        { r with targetQueue := rest, continuations := r.continuations ++ [attempt] }
  | continuation {r : BRURetry U D K} {attempt : Nat} {result : ContinuationResult}
      (hmem : attempt ∈ r.continuations) :
      Transition r (.continuation attempt result)
        { r with
          continuations := r.continuations.erase attempt
          syncQueue := r.syncQueue ++ [.continuation attempt result]
          log := r.log ++ [.continuation attempt result] }
  | askPolicy {r : BRURetry U D K} {attempt : Nat} {result : ContinuationResult}
      {rest : List (RetrySyncBlock D)}
      (hq : r.syncQueue = .continuation attempt result :: rest)
      (hfailure : result.success = false) (herror : result.error.isSome)
      (hs : r.state ≠ .activeCancelling) (hstatus : result.status = .transient) :
      Transition r .runSync
        { r with
          syncQueue := rest
          targetQueue := r.targetQueue ++
            [.policy false result.error attempt r.currentDelay] }
  | finish {r : BRURetry U D K} {attempt : Nat} {result : ContinuationResult}
      {rest : List (RetrySyncBlock D)}
      (hq : r.syncQueue = .continuation attempt result :: rest)
      (hconsistent : result.success = result.error.isNone)
      (hfinal : result.success = true ∨ r.state = .activeCancelling ∨
        result.status = .final) :
      Transition r .runSync
        (terminated result.success result.error { r with syncQueue := rest })
  | runPolicy {r : BRURetry U D K} {response : BRURetryPolicyResponse} {left : D}
      {success : Bool} {error : Option NSError} {attempt : Nat} {nextDelay : D}
      {rest : List (RetryTargetBlock D K)}
      (hq : r.targetQueue = .policy success error attempt nextDelay :: rest) :
      Transition r (.runPolicy response left)
        { r with
          targetQueue := rest
          syncQueue := r.syncQueue ++ [.policyResult success error response left]
          log := r.log ++ [.policy attempt error nextDelay response left] }
  | policyStop {r : BRURetry U D K} {success : Bool} {error : Option NSError}
      {response : BRURetryPolicyResponse} {nextDelay : D}
      {rest : List (RetrySyncBlock D)}
      (hq : r.syncQueue = .policyResult success error response nextDelay :: rest)
      (hterm : Terminates success response r) :
      Transition r .runSync (terminated success error { r with syncQueue := rest })
  | policyRetry {r : BRURetry U D K} {success : Bool} {error : Option NSError}
      {response : BRURetryPolicyResponse} {nextDelay : D}
      {rest : List (RetrySyncBlock D)}
      (hq : r.syncQueue = .policyResult success error response nextDelay :: rest)
      (hterm : ¬ Terminates success response r) (htimer : r.timer = none) :
      Transition r .runSync (scheduled nextDelay { r with syncQueue := rest })
  | timerCallback {r : BRURetry U D K} {timer : RetryTimer U D}
      (htimer : r.timer = some timer)
      (hid : isEqual timer.identifier r.identifier = true) :
      Transition r .timerCallback r.resumed
  | runDeferred {r : BRURetry U D K} {run : Nat}
      {deferred : BRUDeferred (RetryThenBlock K) BRURetryResult}
      {blocks : List (RetryThenBlock K)}
      (hrun : (r.deferreds run).runSync = .ok (deferred, blocks)) :
      Transition r (.runDeferred run)
        { r with
          deferreds := Function.update r.deferreds run deferred
          targetQueue := r.targetQueue ++ blocks.map (.completion run) }
  | runCompletion {r : BRURetry U D K} {run : Nat} {block : RetryThenBlock K}
      {rest : List (RetryTargetBlock D K)}
      (hq : r.targetQueue = .completion run block :: rest) :
      Transition r .runCompletion
        { r with
          targetQueue := rest
          log := r.log ++ [.completion run block
            (((r.deferreds run).value).getD ⟨false, none⟩).success
            (((r.deferreds run).value).getD ⟨false, none⟩).error] }

/-- The block of a start takes the branch of the current state. -/
theorem start_transition {r r' : BRURetry U D K} {uuid : U} {completion : Option K}
    (h : step r (.start uuid completion) = .ok r') :
    Transition r (.start uuid completion) r' := by
  cases hs : r.state with
  | idle =>
    have heq : r' = ((r.begun uuid).withCompletion completion).record
        (.start .idle (some uuid)) := by
      cases completion <;>
        simp_all [step, startSync, performAction, begun, withCompletion, record]
    rw [heq]
    exact .startIdle hs
  | delay =>
    have heq : r' = (r.withCompletion completion).record (.start r.state none) := by
      cases completion <;> simp_all [step, startSync, withCompletion, record]
    rw [heq]
    exact .startJoin (Or.inl hs)
  | activeWaiting =>
    have heq : r' = (r.withCompletion completion).record (.start r.state none) := by
      cases completion <;> simp_all [step, startSync, withCompletion, record]
    rw [heq]
    exact .startJoin (Or.inr hs)
  | activeCancelling =>
    have heq : r' = (withCompletion completion { r with state := .activeWaiting }).record
        (.start .activeCancelling r.identifier) := by
      cases completion <;> simp_all [step, startSync, withCompletion, record]
    rw [heq]
    exact .startRestore hs

theorem cancel_transition {r r' : BRURetry U D K} {id : U}
    (h : step r (.cancel id) = .ok r') : Transition r (.cancel id) r' := by
  by_cases hid : isEqual r.identifier (some id) = true
  · have hsome : r.identifier = some id := (isEqual_iff.mp hid).1
    cases hs : r.state with
    | idle =>
      have heq : r' = r.record (.cancel id false) := by
        simp_all [step, cancel, record]
      rw [heq]
      exact .cancelIgnored (Or.inr (Or.inl hs))
    | delay =>
      have heq : r' = r.released.record (.cancel id true) := by
        simp_all [step, cancel, record, released]
      rw [heq]
      exact .cancelDelay hsome hs
    | activeWaiting =>
      simp only [step, cancel, hid, hs, checkInvariants, Bool.true_eq_false, if_false,
        bind_eq_ok, assertThat_eq_ok, pure_eq_ok, Prod.exists, Prod.mk.injEq] at h
      obtain ⟨_, _, ⟨_, hinv, rfl, rfl⟩, h⟩ := h
      rw [← h]
      exact .cancelWaiting hsome hs hinv
    | activeCancelling =>
      have heq : r' = r.record (.cancel id false) := by
        simp_all [step, cancel, record]
      rw [heq]
      exact .cancelIgnored (Or.inr (Or.inr hs))
  · have heq : r' = r.record (.cancel id false) := by
      simp_all [step, cancel, record]
    have hne : r.identifier ≠ some id := by
      intro hsome
      exact hid (isEqual_iff.mpr ⟨hsome, by rw [hsome]; rfl⟩)
    rw [heq]
    exact .cancelIgnored (Or.inl hne)

/-- A block of `syncQueue` asks the policy, terminates the run, or arms the
timer. -/
theorem sync_transition {r r' : BRURetry U D K} (h : step r .runSync = .ok r') :
    Transition r .runSync r' := by
  cases hq : r.syncQueue with
  | nil => simp [step, hq] at h
  | cons block rest =>
    cases block with
    | continuation attempt result =>
      simp only [step, hq, processContinuation, bind_eq_ok, assertThat_eq_ok] at h
      obtain ⟨_, hconsistent, h⟩ := h
      by_cases hfinal : result.success = true ∨ r.state = .activeCancelling ∨
          result.status = .final
      · have hb : (result.success || r.state == .activeCancelling ||
            result.status == .final) = true := by
          simpa [or_assoc] using hfinal
        have hterm : Terminates result.success .stop { r with syncQueue := rest } :=
          Or.inr (Or.inr rfl)
        rw [hb, (handleResult_eq ..).1 hterm] at h
        simp only [Bool.not_true, Bool.false_eq_true, if_false, bind_eq_ok, pure_eq_ok] at h
        obtain ⟨_, _, h⟩ := h
        rw [← h]
        exact .finish hq hconsistent hfinal
      · have hb : (result.success || r.state == .activeCancelling ||
            result.status == .final) = false := by
          simpa [not_or, and_assoc] using hfinal
        simp only [not_or, Bool.not_eq_true] at hfinal
        obtain ⟨hfailure, hs, hstatus⟩ := hfinal
        have htransient : result.status = .transient := by
          cases hst : result.status with
          | transient => rfl
          | final => exact absurd hst hstatus
        have herror : result.error.isSome = true := by
          rw [hfailure] at hconsistent
          cases herr : result.error with
          | none => simp [herr] at hconsistent
          | some e => rfl
        rw [hb] at h
        simp only [hfailure, Bool.not_false, if_true, pure_eq_ok] at h
        rw [← h]
        exact .askPolicy hq hfailure herror hs htransient
    | policyResult success error response nextDelay =>
      simp only [step, hq] at h
      by_cases hterm : Terminates success response r
      · have hterm' : Terminates success response { r with syncQueue := rest } := hterm
        rw [(handleResult_eq ..).1 hterm'] at h
        simp only [bind_eq_ok, pure_eq_ok] at h
        obtain ⟨_, _, h⟩ := h
        rw [← h]
        exact .policyStop hq hterm
      · have hterm' : ¬ Terminates success response { r with syncQueue := rest } := hterm
        rw [(handleResult_eq ..).2 hterm'] at h
        simp only [bind_eq_ok, pure_eq_ok, assertThat_eq_ok] at h
        obtain ⟨_, htimer, _, _, h⟩ := h
        rw [← h]
        exact .policyRetry hq hterm htimer

/-- The list of steps is complete. -/
theorem step_transition {r r' : BRURetry U D K} {e : Event U D K}
    (h : step r e = .ok r') : Transition r e r' := by
  cases e with
  | start uuid completion => exact start_transition h
  | cancel id => exact cancel_transition h
  | runSync => exact sync_transition h
  | runAction =>
    cases hq : r.targetQueue with
    | nil => simp [step, hq] at h
    | cons block rest =>
      cases block with
      | action attempt =>
        simp only [step, hq, pure_eq_ok] at h
        rw [← h]
        exact .runAction hq
      | policy => simp [step, hq] at h
      | completion => simp [step, hq] at h
  | continuation attempt result =>
    simp only [step, bind_eq_ok, enabledIf_eq_ok, pure_eq_ok] at h
    obtain ⟨_, hmem, h⟩ := h
    rw [← h]
    exact .continuation hmem
  | runPolicy response left =>
    cases hq : r.targetQueue with
    | nil => simp [step, hq] at h
    | cons block rest =>
      cases block with
      | policy success error attempt nextDelay =>
        simp only [step, hq, pure_eq_ok] at h
        rw [← h]
        exact .runPolicy hq
      | action => simp [step, hq] at h
      | completion => simp [step, hq] at h
  | timerCallback =>
    cases htimer : r.timer with
    | none => simp [step, htimer] at h
    | some timer =>
      simp only [step, htimer, BRURetry.timerCallback, performAction, bind_eq_ok,
        assertThat_eq_ok, pure_eq_ok] at h
      obtain ⟨_, hid, _, _, h⟩ := h
      rw [← h]
      exact .timerCallback htimer hid
  | runDeferred run =>
    simp only [step, bind_eq_ok, pure_eq_ok, Prod.exists] at h
    obtain ⟨deferred, blocks, hrun, h⟩ := h
    rw [← h]
    exact .runDeferred hrun
  | runCompletion =>
    cases hq : r.targetQueue with
    | nil => simp [step, hq] at h
    | cons block rest =>
      cases block with
      | completion run block =>
        simp only [step, hq, pure_eq_ok] at h
        rw [← h]
        exact .runCompletion hq
      | action => simp [step, hq] at h
      | policy => simp [step, hq] at h

/-! ## What a step logs -/

/-- The entries that an event may add to the log. -/
def Event.logs : Event U D K → RetryObservation U D K → Bool
  | .start .., .start .. => true
  | .start .., .performAction _ => true
  | .start .., .register .. => true
  | .cancel _, .cancel .. => true
  | .cancel _, .suspend _ => true
  | .cancel _, .resolve .. => true
  | .continuation .., .continuation .. => true
  | .runPolicy .., .policy .. => true
  | .runSync, .schedule _ => true
  | .runSync, .resolve .. => true
  | .timerCallback, .performAction _ => true
  | .runCompletion, .completion .. => true
  | _, _ => false

omit [DecidableEq U] [NSTimeInterval D] in
/-- A run that terminates logs its resolution. -/
theorem terminated_log (success : Bool) (error : Option NSError) (r : BRURetry U D K) :
    ∃ entries, (r.terminated success error).log = r.log ++ entries ∧
      ∀ o ∈ entries, ∃ run result, o = .resolve run result := by
  refine ⟨_, by rw [terminated, resolve_log], ?_⟩
  intro o ho
  simp only [Option.mem_toList, Option.map_eq_some_iff] at ho
  obtain ⟨run, _, ho⟩ := ho
  exact ⟨run, _, ho.symm⟩

omit [DecidableEq U] [NSTimeInterval D] in
/-- A run that is cancelled in Delay suspends its timer first. -/
theorem released_log (r : BRURetry U D K) :
    ∃ entries, r.released.log =
        r.log ++ (r.timer.map fun timer => .suspend timer.address).toList ++ entries ∧
      ∀ o ∈ entries, ∃ run result, o = .resolve run result := by
  refine ⟨_, by rw [released, resolve_log]; rfl, ?_⟩
  intro o ho
  simp only [Option.mem_toList, Option.map_eq_some_iff] at ho
  obtain ⟨run, _, ho⟩ := ho
  exact ⟨run, _, ho.symm⟩

/-- The log only grows, by entries that belong to the event. -/
theorem step_log {r r' : BRURetry U D K} {e : Event U D K} (h : step r e = .ok r') :
    ∃ entries, r'.log = r.log ++ entries ∧ ∀ o ∈ entries, e.logs o = true := by
  cases step_transition h with
  | @startIdle uuid completion _ =>
    obtain ⟨entries, hlog, hentries⟩ := withCompletion_log (r.begun uuid) completion
    refine ⟨[.performAction ((r.attempt + 1) % 2 ^ 64)] ++ entries ++
      [.start .idle (some uuid)], ?_, ?_⟩
    · show ((r.begun uuid).withCompletion completion).log ++ [.start .idle (some uuid)] = _
      rw [hlog]
      simp [begun]
    · intro o ho
      simp only [List.mem_append, List.mem_singleton] at ho
      rcases ho with (ho | ho) | ho
      · rw [ho]; rfl
      · obtain ⟨run, block, hreg⟩ := hentries o ho
        rw [hreg]; rfl
      · rw [ho]; rfl
  | @startJoin uuid completion _ =>
    obtain ⟨entries, hlog, hentries⟩ := withCompletion_log r completion
    refine ⟨entries ++ [.start r.state none], by simp [record, hlog], ?_⟩
    intro o ho
    simp only [List.mem_append, List.mem_singleton] at ho
    rcases ho with ho | ho
    · obtain ⟨run, block, hreg⟩ := hentries o ho
      rw [hreg]; rfl
    · rw [ho]; rfl
  | @startRestore uuid completion _ =>
    obtain ⟨entries, hlog, hentries⟩ :=
      withCompletion_log { r with state := .activeWaiting } completion
    refine ⟨entries ++ [.start .activeCancelling r.identifier], by simp [record, hlog], ?_⟩
    intro o ho
    simp only [List.mem_append, List.mem_singleton] at ho
    rcases ho with ho | ho
    · obtain ⟨run, block, hreg⟩ := hentries o ho
      rw [hreg]; rfl
    · rw [ho]; rfl
  | cancelIgnored _ => exact ⟨_, rfl, by simp [Event.logs]⟩
  | @cancelDelay id _ _ =>
    obtain ⟨entries, hlog, hentries⟩ := released_log r
    refine ⟨(r.timer.map fun timer => .suspend timer.address).toList ++ entries ++
      [.cancel id true], by simp [record, hlog], ?_⟩
    intro o ho
    simp only [List.mem_append, List.mem_singleton, Option.mem_toList,
      Option.map_eq_some_iff] at ho
    rcases ho with (⟨_, _, ho⟩ | ho) | ho
    · rw [← ho]
      rfl
    · obtain ⟨run, result, ho⟩ := hentries o ho
      rw [ho]
      rfl
    · rw [ho]
      rfl
  | cancelWaiting _ _ _ => exact ⟨_, rfl, by simp [Event.logs]⟩
  | runAction _ => exact ⟨[], by simp⟩
  | continuation _ => exact ⟨_, rfl, by simp [Event.logs]⟩
  | askPolicy _ _ _ _ _ => exact ⟨[], by simp⟩
  | @finish attempt result rest _ _ _ =>
    obtain ⟨entries, hlog, hentries⟩ :=
      terminated_log result.success result.error { r with syncQueue := rest }
    refine ⟨entries, hlog, ?_⟩
    intro o ho
    obtain ⟨run, result, ho⟩ := hentries o ho
    rw [ho]
    rfl
  | runPolicy _ => exact ⟨_, rfl, by simp [Event.logs]⟩
  | @policyStop success error response nextDelay rest _ _ =>
    obtain ⟨entries, hlog, hentries⟩ :=
      terminated_log success error { r with syncQueue := rest }
    refine ⟨entries, hlog, ?_⟩
    intro o ho
    obtain ⟨run, result, ho⟩ := hentries o ho
    rw [ho]
    rfl
  | policyRetry _ _ _ => exact ⟨_, rfl, by simp [Event.logs]⟩
  | timerCallback _ _ => exact ⟨_, rfl, by simp [Event.logs]⟩
  | runDeferred _ => exact ⟨[], by simp⟩
  | runCompletion _ => exact ⟨_, rfl, by simp [Event.logs]⟩

end BRURetry

end BromiumCoreUtils
