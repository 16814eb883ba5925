import BromiumCoreUtils.Retry.Transition

/-!
# One piece of outstanding work

A run of `BRURetry` hands its work from queue to queue: the action, its
continuation, the result of that, the policy, its result, the timer.  The
state says which of them is out, and never more than one is.
`SingleOutstanding` is that invariant, and `step_singleOutstanding` is its
step lemma.

`Consistent` adds what the fields say about each other.  Together they give
the exact answer of `checkInvariants` (`invariantsHold_iff`) and the
assertions that cannot fail (`step_failed`).
-/

namespace BromiumCoreUtils

open Machine

def RetryTargetBlock.isAction {D K : Type} : RetryTargetBlock D K → Bool
  | .action _ => true
  | _ => false

def RetryTargetBlock.isPolicy {D K : Type} : RetryTargetBlock D K → Bool
  | .policy .. => true
  | _ => false

def RetrySyncBlock.isContinuation {D : Type} : RetrySyncBlock D → Bool
  | .continuation .. => true
  | .policyResult .. => false

def RetrySyncBlock.isPolicyResult {D : Type} : RetrySyncBlock D → Bool
  | .continuation .. => false
  | .policyResult .. => true

namespace BRURetry

variable {U D K : Type}

/-! ## The work in flight -/

/-- The actions queued on `targetQueue`. -/
def queuedActions (r : BRURetry U D K) : Nat :=
  r.targetQueue.countP RetryTargetBlock.isAction

/-- The policy calls queued on `targetQueue`. -/
def queuedPolicies (r : BRURetry U D K) : Nat :=
  r.targetQueue.countP RetryTargetBlock.isPolicy

/-- The continuation blocks that were not called yet. -/
def uncalledContinuations (r : BRURetry U D K) : Nat :=
  r.continuations.length

/-- The continuation results queued on `syncQueue`. -/
def queuedContinuationResults (r : BRURetry U D K) : Nat :=
  r.syncQueue.countP RetrySyncBlock.isContinuation

/-- The policy results queued on `syncQueue`. -/
def queuedPolicyResults (r : BRURetry U D K) : Nat :=
  r.syncQueue.countP RetrySyncBlock.isPolicyResult

/-- All the work of an attempt that is out. -/
def attemptWork (r : BRURetry U D K) : Nat :=
  r.queuedActions + r.uncalledContinuations + r.queuedContinuationResults +
    r.queuedPolicies + r.queuedPolicyResults

/-- Every block on `syncQueue` is work of an attempt. -/
theorem attemptWork_eq (r : BRURetry U D K) :
    r.attemptWork = r.targetQueue.countP RetryTargetBlock.isAction +
      r.targetQueue.countP RetryTargetBlock.isPolicy +
      r.continuations.length + r.syncQueue.length := by
  have hsync : ∀ queue : List (RetrySyncBlock D),
      queue.countP RetrySyncBlock.isContinuation +
        queue.countP RetrySyncBlock.isPolicyResult = queue.length := by
    intro queue
    induction queue with
    | nil => rfl
    | cons block rest ih =>
      cases block <;>
        simp [List.countP_cons, RetrySyncBlock.isContinuation,
          RetrySyncBlock.isPolicyResult] <;>
        omega
  have h := hsync r.syncQueue
  simp only [attemptWork, queuedActions, queuedPolicies, uncalledContinuations,
    queuedContinuationResults, queuedPolicyResults]
  omega

/-- The work in flight depends on three fields. -/
theorem attemptWork_congr {r r' : BRURetry U D K}
    (htarget : r'.targetQueue = r.targetQueue) (hsync : r'.syncQueue = r.syncQueue)
    (hcont : r'.continuations = r.continuations) : r'.attemptWork = r.attemptWork := by
  rw [attemptWork_eq, attemptWork_eq, htarget, hsync, hcont]

theorem attemptWork_append_action (r : BRURetry U D K) (attempt : Nat) :
    attemptWork { r with targetQueue := r.targetQueue ++ [.action attempt] } =
      r.attemptWork + 1 := by
  rw [attemptWork_eq, attemptWork_eq]
  simp [RetryTargetBlock.isAction, RetryTargetBlock.isPolicy]
  omega

/-- An action that runs leaves its continuation block out. -/
theorem attemptWork_runAction {r : BRURetry U D K} {attempt : Nat}
    {rest : List (RetryTargetBlock D K)} (hq : r.targetQueue = .action attempt :: rest) :
    attemptWork { r with targetQueue := rest, continuations := r.continuations ++ [attempt] } =
      r.attemptWork := by
  rw [attemptWork_eq, attemptWork_eq, hq]
  simp [List.countP_cons, RetryTargetBlock.isAction, RetryTargetBlock.isPolicy]
  omega

/-- A continuation block that is called leaves its result on `syncQueue`. -/
theorem attemptWork_continuation {r : BRURetry U D K} {attempt : Nat}
    (hmem : attempt ∈ r.continuations) (block : RetrySyncBlock D) :
    attemptWork { r with
      continuations := r.continuations.erase attempt, syncQueue := r.syncQueue ++ [block] } =
      r.attemptWork := by
  have hlen := List.length_erase_of_mem hmem
  have hpos := List.length_pos_of_mem hmem
  rw [attemptWork_eq, attemptWork_eq]
  simp only [List.length_append, List.length_cons, List.length_nil]
  omega

/-- So does a policy call that runs. -/
theorem attemptWork_runPolicy {r : BRURetry U D K} {success : Bool} {error : Option NSError}
    {attempt : Nat} {nextDelay : D} {rest : List (RetryTargetBlock D K)}
    (hq : r.targetQueue = .policy success error attempt nextDelay :: rest)
    (block : RetrySyncBlock D) :
    attemptWork { r with targetQueue := rest, syncQueue := r.syncQueue ++ [block] } =
      r.attemptWork := by
  rw [attemptWork_eq, attemptWork_eq, hq]
  simp [List.countP_cons, RetryTargetBlock.isAction, RetryTargetBlock.isPolicy]
  omega

/-- The then-blocks that a flush queues are no work of an attempt. -/
theorem attemptWork_runDeferred (r : BRURetry U D K) (run : Nat)
    (blocks : List (RetryThenBlock K)) :
    attemptWork { r with targetQueue := r.targetQueue ++ blocks.map (.completion run) } =
      r.attemptWork := by
  have hactions : (blocks.map (RetryTargetBlock.completion (D := D) run)).countP
      RetryTargetBlock.isAction = 0 := by
    simp [List.countP_eq_zero, RetryTargetBlock.isAction]
  have hpolicies : (blocks.map (RetryTargetBlock.completion (D := D) run)).countP
      RetryTargetBlock.isPolicy = 0 := by
    simp [List.countP_eq_zero, RetryTargetBlock.isPolicy]
  rw [attemptWork_eq, attemptWork_eq, List.countP_append, List.countP_append, hactions,
    hpolicies]
  simp only [Nat.add_zero]

/-! ## The invariant -/

/-- The state says which work is out: none, the timer, or one piece of the
work of an attempt. -/
structure SingleOutstanding (r : BRURetry U D K) : Prop where
  idle : r.state = .idle → r.attemptWork = 0 ∧ r.timer = none
  delay : r.state = .delay → r.attemptWork = 0 ∧ r.timer.isSome
  active : r.state = .activeWaiting ∨ r.state = .activeCancelling →
    r.attemptWork = 1 ∧ r.timer = none

namespace SingleOutstanding

variable {r r' : BRURetry U D K}

/-- Work of an attempt is out in the two active states only. -/
theorem active_of_work (h : SingleOutstanding r) (hwork : 0 < r.attemptWork) :
    (r.state = .activeWaiting ∨ r.state = .activeCancelling) ∧
      r.attemptWork = 1 ∧ r.timer = none := by
  cases hs : r.state with
  | idle => have := (h.idle hs).1; omega
  | delay => have := (h.delay hs).1; omega
  | activeWaiting => exact ⟨Or.inl rfl, h.active (Or.inl hs)⟩
  | activeCancelling => exact ⟨Or.inr rfl, h.active (Or.inr hs)⟩

/-- A timer is armed in Delay only. -/
theorem delay_of_timer (h : SingleOutstanding r) (htimer : r.timer ≠ none) :
    r.state = .delay ∧ r.attemptWork = 0 := by
  cases hs : r.state with
  | idle => exact absurd (h.idle hs).2 htimer
  | delay => exact ⟨rfl, (h.delay hs).1⟩
  | activeWaiting => exact absurd (h.active (Or.inl hs)).2 htimer
  | activeCancelling => exact absurd (h.active (Or.inr hs)).2 htimer

/-- A block on `syncQueue` is the one piece of work that is out. -/
theorem of_syncQueue {block : RetrySyncBlock D} {rest : List (RetrySyncBlock D)}
    (h : SingleOutstanding r) (hq : r.syncQueue = block :: rest) :
    (r.state = .activeWaiting ∨ r.state = .activeCancelling) ∧ r.timer = none ∧
      attemptWork { r with syncQueue := rest } = 0 := by
  have hwork : r.attemptWork = attemptWork { r with syncQueue := rest } + 1 := by
    simp only [attemptWork_eq, hq, List.length_cons]
    omega
  obtain ⟨hactive, hone, htimer⟩ := h.active_of_work (by omega)
  exact ⟨hactive, htimer, by omega⟩

/-- The invariant survives a change of the other fields. -/
theorem congr (h : SingleOutstanding r) (hstate : r'.state = r.state)
    (htimer : r'.timer = r.timer) (hwork : r'.attemptWork = r.attemptWork) :
    SingleOutstanding r' where
  idle hs := by rw [hwork, htimer]; exact h.idle (hstate ▸ hs)
  delay hs := by rw [hwork, htimer]; exact h.delay (hstate ▸ hs)
  active hs := by rw [hwork, htimer]; exact h.active (hstate ▸ hs)

theorem of_active (hs : r.state = .activeWaiting ∨ r.state = .activeCancelling)
    (hwork : r.attemptWork = 1) (htimer : r.timer = none) : SingleOutstanding r where
  idle hi := by rcases hs with hs | hs <;> rw [hs] at hi <;> cases hi
  delay hd := by rcases hs with hs | hs <;> rw [hs] at hd <;> cases hd
  active _ := ⟨hwork, htimer⟩

theorem of_idle (hs : r.state = .idle) (hwork : r.attemptWork = 0)
    (htimer : r.timer = none) : SingleOutstanding r where
  idle _ := ⟨hwork, htimer⟩
  delay hd := by rw [hs] at hd; cases hd
  active ha := by rcases ha with ha | ha <;> rw [hs] at ha <;> cases ha

theorem of_delay (hs : r.state = .delay) (hwork : r.attemptWork = 0)
    (htimer : r.timer.isSome) : SingleOutstanding r where
  idle hi := by rw [hs] at hi; cases hi
  delay _ := ⟨hwork, htimer⟩
  active ha := by rcases ha with ha | ha <;> rw [hs] at ha <;> cases ha

end SingleOutstanding

@[simp] theorem withCompletion_attemptWork (completion : Option K)
    (r : BRURetry U D K) : (r.withCompletion completion).attemptWork = r.attemptWork := by
  cases completion with
  | none => rfl
  | some block =>
    exact attemptWork_congr (thenOnDeferred_targetQueue r block)
      (thenOnDeferred_syncQueue r block) (thenOnDeferred_continuations r block)

/-! ## What the fields say about each other -/

/-- `id` is the identifier of the last start that began a run. -/
def InitiatedBy (id : U) (log : List (RetryObservation U D K)) : Prop :=
  Log.Since (fun o => o = .start .idle (some id))
    (fun o => ∀ identifier, o ≠ .start .idle identifier) log

/-- The fields of a run belong together. -/
structure Consistent (r : BRURetry U D K) : Prop where
  idle : r.state = .idle → r.attempt = 0 ∧ r.identifier = none ∧ r.deferred = none
  running : r.state ≠ .idle → r.identifier.isSome ∧ r.deferred.isSome
  /-- A timer is armed under the identifier of the run. -/
  timer : ∀ timer, r.timer = some timer → timer.identifier = r.identifier
  cancelling : r.state = .activeCancelling → 0 < r.attempt
  initiated : ∀ id, r.identifier = some id → InitiatedBy id r.log

/-- Entries that begin no run change nothing. -/
theorem InitiatedBy.append {id : U} {log entries : List (RetryObservation U D K)}
    (h : InitiatedBy id log)
    (hentries : ∀ o ∈ entries, ∀ identifier, o ≠ .start .idle identifier) :
    InitiatedBy id (log ++ entries) :=
  Log.Since.append h hentries

theorem InitiatedBy.concat {id : U} {log : List (RetryObservation U D K)}
    {o : RetryObservation U D K} (h : InitiatedBy id log)
    (ho : ∀ identifier, o ≠ .start .idle identifier) : InitiatedBy id (log ++ [o]) :=
  h.append fun _ hmem => List.mem_singleton.mp hmem ▸ ho

/-- An idle object has nothing left of its run. -/
theorem Consistent.of_idle {r : BRURetry U D K} (hs : r.state = .idle)
    (hattempt : r.attempt = 0) (hid : r.identifier = none) (hdef : r.deferred = none)
    (htimer : r.timer = none) : Consistent r where
  idle _ := ⟨hattempt, hid, hdef⟩
  running h := absurd hs h
  timer _ h := by rw [htimer] at h; cases h
  cancelling h := by rw [hs] at h; cases h
  initiated _ h := by rw [hid] at h; cases h

/-- The fields of a run survive a step that leaves them alone and begins no
run. -/
theorem Consistent.congr {r r' : BRURetry U D K} (h : Consistent r)
    (hstate : r'.state = r.state) (hattempt : r'.attempt = r.attempt)
    (hid : r'.identifier = r.identifier) (hdef : r'.deferred = r.deferred)
    (htimer : r'.timer = r.timer)
    (hlog : ∃ entries, r'.log = r.log ++ entries ∧
      ∀ o ∈ entries, ∀ identifier, o ≠ .start .idle identifier) : Consistent r' where
  idle hs := by rw [hattempt, hid, hdef]; exact h.idle (hstate ▸ hs)
  running hs := by rw [hid, hdef]; exact h.running (hstate ▸ hs)
  timer timer ht := by rw [hid]; exact h.timer timer (htimer ▸ ht)
  cancelling hs := by rw [hattempt]; exact h.cancelling (hstate ▸ hs)
  initiated id hi := by
    obtain ⟨entries, heq, hentries⟩ := hlog
    rw [heq]
    exact (h.initiated id (hid ▸ hi)).append hentries

/-- A run that goes on, in Delay or in ActiveWaiting, keeps its identifier and
its deferred. -/
theorem Consistent.of_same_run {r r' : BRURetry U D K} (h : Consistent r)
    (hs : r.state ≠ .idle) (hs' : r'.state = .delay ∨ r'.state = .activeWaiting)
    (hid : r'.identifier = r.identifier) (hdef : r'.deferred = r.deferred)
    (htimer : ∀ timer, r'.timer = some timer → timer.identifier = r.identifier)
    (hlog : ∃ entries, r'.log = r.log ++ entries ∧
      ∀ o ∈ entries, ∀ identifier, o ≠ .start .idle identifier) : Consistent r' where
  idle hidle := by rcases hs' with hs' | hs' <;> rw [hs'] at hidle <;> cases hidle
  running _ := by rw [hid, hdef]; exact h.running hs
  timer timer ht := by rw [hid]; exact htimer timer ht
  cancelling hc := by rcases hs' with hs' | hs' <;> rw [hs'] at hc <;> cases hc
  initiated id hi := by
    obtain ⟨entries, heq, hentries⟩ := hlog
    rw [heq]
    exact (h.initiated id (hid ▸ hi)).append hentries

/-! ## The steps -/

variable [ToString U]

@[simp] theorem terminated_attemptWork (success : Bool) (error : Option NSError)
    (r : BRURetry U D K) : (r.terminated success error).attemptWork = r.attemptWork :=
  attemptWork_congr (by simp [terminated]) (by simp [terminated]) (by simp [terminated])

@[simp] theorem released_attemptWork (r : BRURetry U D K) :
    r.released.attemptWork = r.attemptWork :=
  attemptWork_congr (by simp [released, suspendTimer]) (by simp [released, suspendTimer])
    (by simp [released, suspendTimer])

/-- A run that terminates leaves no work behind. -/
theorem SingleOutstanding.terminated {r : BRURetry U D K} (h : SingleOutstanding r)
    {block : RetrySyncBlock D} {rest : List (RetrySyncBlock D)}
    (hq : r.syncQueue = block :: rest) (success : Bool) (error : Option NSError) :
    SingleOutstanding (BRURetry.terminated success error { r with syncQueue := rest }) := by
  obtain ⟨_, htimer, hzero⟩ := h.of_syncQueue hq
  apply SingleOutstanding.of_idle
  · simp [BRURetry.terminated]
  · rw [terminated_attemptWork, hzero]
  · simp [BRURetry.terminated, htimer]

theorem Consistent.terminated {r : BRURetry U D K} (htimer : r.timer = none)
    (rest : List (RetrySyncBlock D)) (success : Bool) (error : Option NSError) :
    Consistent (BRURetry.terminated success error { r with syncQueue := rest }) := by
  apply Consistent.of_idle
  · simp [BRURetry.terminated]
  · simp [BRURetry.terminated]
  · simp [BRURetry.terminated]
  · simp [BRURetry.terminated]
  · simp [BRURetry.terminated, htimer]

variable [DecidableEq U] [NSTimeInterval D]

omit [ToString U] [DecidableEq U] in
theorem singleOutstanding_init (delay : D) :
    SingleOutstanding (initWithActionBlock delay : BRURetry U D K) :=
  .of_idle rfl rfl rfl

/-- One step keeps the invariant. -/
theorem step_singleOutstanding {r r' : BRURetry U D K} {e : Event U D K}
    (h : SingleOutstanding r) (hstep : step r e = .ok r') : SingleOutstanding r' := by
  cases step_transition hstep with
  | @startIdle uuid completion hs =>
    obtain ⟨hwork, htimer⟩ := h.idle hs
    have hone : (r.begun uuid).attemptWork = 1 := by
      have happend := attemptWork_append_action r ((r.attempt + 1) % 2 ^ 64)
      rw [hwork] at happend
      exact happend
    apply SingleOutstanding.of_active
    · left
      rw [record, withCompletion_state]
      rfl
    · show ((r.begun uuid).withCompletion completion).attemptWork = 1
      rw [withCompletion_attemptWork, hone]
    · rw [record, withCompletion_timer]
      exact htimer
  | @startJoin uuid completion hs =>
    refine h.congr ?_ ?_ ?_
    · rw [record, withCompletion_state]
    · rw [record, withCompletion_timer]
    · show (r.withCompletion completion).attemptWork = r.attemptWork
      rw [withCompletion_attemptWork]
  | @startRestore uuid completion hs =>
    obtain ⟨hwork, htimer⟩ := h.active (Or.inr hs)
    apply SingleOutstanding.of_active
    · left
      rw [record, withCompletion_state]
    · show (withCompletion completion { r with state := .activeWaiting }).attemptWork = 1
      rw [withCompletion_attemptWork]
      exact hwork
    · rw [record, withCompletion_timer]
      exact htimer
  | cancelIgnored _ => exact h.congr rfl rfl rfl
  | cancelDelay hid hs =>
    obtain ⟨hwork, _⟩ := h.delay hs
    apply SingleOutstanding.of_idle
    · simp [record, released]
    · show r.released.attemptWork = 0
      rw [released_attemptWork, hwork]
    · simp [record, released]
  | cancelWaiting hid hs _ =>
    obtain ⟨hwork, htimer⟩ := h.active (Or.inl hs)
    exact .of_active (Or.inr rfl) hwork htimer
  | runAction hq => exact h.congr rfl rfl (attemptWork_runAction hq)
  | continuation hmem => exact h.congr rfl rfl (attemptWork_continuation hmem _)
  | askPolicy hq _ _ _ _ =>
    obtain ⟨hactive, htimer, hzero⟩ := h.of_syncQueue hq
    refine .of_active hactive ?_ htimer
    rw [attemptWork_eq] at hzero ⊢
    simp only [List.countP_append, List.countP_cons, List.countP_nil,
      RetryTargetBlock.isAction, RetryTargetBlock.isPolicy]
    simp only at hzero
    simp
    omega
  | finish hq _ _ => exact h.terminated hq _ _
  | runPolicy hq => exact h.congr rfl rfl (attemptWork_runPolicy hq _)
  | policyStop hq _ => exact h.terminated hq _ _
  | policyRetry hq _ _ =>
    obtain ⟨_, _, hzero⟩ := h.of_syncQueue hq
    exact .of_delay rfl hzero rfl
  | timerCallback htimer _ =>
    obtain ⟨_, hwork⟩ := h.delay_of_timer (by rw [htimer]; simp)
    refine .of_active (Or.inl rfl) ?_ rfl
    have happend := attemptWork_append_action r ((r.attempt + 1) % 2 ^ 64)
    rw [hwork] at happend
    exact happend
  | runDeferred hrun => exact h.congr rfl rfl (attemptWork_runDeferred r _ _)
  | runCompletion hq =>
    refine h.congr rfl rfl ?_
    rw [attemptWork_eq, attemptWork_eq, hq]
    simp [RetryTargetBlock.isAction, RetryTargetBlock.isPolicy]

omit [ToString U] [DecidableEq U] in
theorem consistent_init (delay : D) :
    Consistent (initWithActionBlock delay : BRURetry U D K) where
  idle _ := ⟨rfl, rfl, rfl⟩
  running h := absurd rfl h
  timer _ h := by cases h
  cancelling h := by cases h
  initiated _ h := by cases h

/-- One step keeps the fields together. -/
theorem step_consistent {r r' : BRURetry U D K} {e : Event U D K}
    (hout : SingleOutstanding r) (h : Consistent r) (hstep : step r e = .ok r') :
    Consistent r' := by
  cases step_transition hstep with
  | @startIdle uuid completion hs =>
    refine
      { idle := ?_, running := ?_, timer := ?_, cancelling := ?_, initiated := ?_ }
    · intro hidle
      simp [record, begun] at hidle
    · intro _
      simp [record, begun]
    · intro timer htimer
      have hnone := (hout.idle hs).2
      simp [record, begun, hnone] at htimer
    · intro hc
      simp [record, begun] at hc
    · intro id hid
      have heq : id = uuid := by simpa [record, begun, eq_comm] using hid
      rw [heq]
      exact Log.since_concat_iff.mpr (Or.inl rfl)
  | @startJoin uuid completion hs =>
    obtain ⟨entries, hlog, hentries⟩ := withCompletion_log r completion
    refine h.congr (by simp [record]) (by simp [record]) (by simp [record])
      (by simp [record]) (by simp [record])
      ⟨entries ++ [.start r.state none], by simp [record, hlog], ?_⟩
    intro o ho identifier
    rcases List.mem_append.mp ho with ho | ho
    · obtain ⟨run, block, hreg⟩ := hentries o ho
      simp [hreg]
    · rw [List.mem_singleton.mp ho]
      rcases hs with hs | hs <;> simp [hs]
  | @startRestore uuid completion hs =>
    obtain ⟨entries, hlog, hentries⟩ :=
      withCompletion_log { r with state := .activeWaiting } completion
    refine h.of_same_run (by rw [hs]; simp) ?_ ?_ ?_ ?_
      ⟨entries ++ [.start .activeCancelling r.identifier], by simp [record, hlog], ?_⟩
    · simp [record]
    · simp [record]
    · simp [record]
    · intro timer htimer
      exact h.timer timer (by simpa [record] using htimer)
    · intro o ho identifier
      rcases List.mem_append.mp ho with ho | ho
      · obtain ⟨run, block, hreg⟩ := hentries o ho
        simp [hreg]
      · rw [List.mem_singleton.mp ho]
        simp
  | cancelIgnored _ =>
    exact h.congr rfl rfl rfl rfl rfl ⟨_, rfl, by simp⟩
  | cancelDelay _ _ =>
    refine .of_idle ?_ ?_ ?_ ?_ ?_ <;> simp [record, released]
  | cancelWaiting hid hs hinv =>
    refine
      { idle := ?_, running := ?_, timer := ?_, cancelling := ?_, initiated := ?_ }
    · intro hidle
      cases hidle
    · intro _
      exact h.running (by rw [hs]; simp)
    · exact h.timer
    · intro _
      -- `checkInvariants` found the counter above zero
      simp [invariantsHold] at hinv
      exact hinv.1.1.2
    · intro id hid'
      exact (h.initiated id hid').concat (by simp)
  | runAction _ => exact h.congr rfl rfl rfl rfl rfl ⟨[], by simp⟩
  | continuation _ => exact h.congr rfl rfl rfl rfl rfl ⟨_, rfl, by simp⟩
  | askPolicy _ _ _ _ _ => exact h.congr rfl rfl rfl rfl rfl ⟨[], by simp⟩
  | finish hq _ _ => exact .terminated (hout.of_syncQueue hq).2.1 _ _ _
  | runPolicy _ => exact h.congr rfl rfl rfl rfl rfl ⟨_, rfl, by simp⟩
  | policyStop hq _ => exact .terminated (hout.of_syncQueue hq).2.1 _ _ _
  | policyRetry hq _ _ =>
    have hactive := (hout.of_syncQueue hq).1
    refine h.of_same_run ?_ (Or.inl rfl) rfl rfl ?_ ⟨_, rfl, by simp⟩
    · rcases hactive with hs | hs <;> rw [hs] <;> simp
    · intro timer htimer
      simp only [scheduled, Option.some.injEq] at htimer
      rw [← htimer]
  | timerCallback htimer _ =>
    have hdelay := (hout.delay_of_timer (by rw [htimer]; simp)).1
    refine h.of_same_run (by rw [hdelay]; simp) (Or.inr rfl) rfl rfl ?_ ⟨_, rfl, by simp⟩
    intro timer ht
    cases ht
  | runDeferred _ => exact h.congr rfl rfl rfl rfl rfl ⟨[], by simp⟩
  | runCompletion _ => exact h.congr rfl rfl rfl rfl rfl ⟨_, rfl, by simp⟩

/-- Both invariants hold in every reachable state. -/
theorem invariants_of_reachable {delay : D} {r : BRURetry U D K}
    (h : Reachable step (initWithActionBlock delay) r) :
    SingleOutstanding r ∧ Consistent r := by
  refine h.invariant (I := fun r => SingleOutstanding r ∧ Consistent r)
    ⟨singleOutstanding_init delay, consistent_init delay⟩ ?_
  intro r e r' _ hinv hstep
  exact ⟨step_singleOutstanding hinv.1 hstep, step_consistent hinv.1 hinv.2 hstep⟩

/-! ## The assertions -/

omit [ToString U] [DecidableEq U] in
/-- What is left for `checkInvariants` to find: a counter that overflowed, or
a delay in Idle that is not the one of the object. -/
theorem invariantsHold_iff {r : BRURetry U D K} (hout : SingleOutstanding r)
    (h : Consistent r) :
    r.invariantsHold = true ↔
      (r.state = .idle → NSTimeInterval.doubleEquals r.currentDelay r.delay = true) ∧
        (r.state ≠ .idle → 0 < r.attempt) := by
  cases hs : r.state with
  | idle =>
    obtain ⟨hattempt, hid, hdef⟩ := h.idle hs
    have htimer := (hout.idle hs).2
    simp [invariantsHold, hs, hattempt, hid, hdef, htimer]
  | delay =>
    obtain ⟨hid, hdef⟩ := h.running (by rw [hs]; simp)
    have htimer := (hout.delay hs).2
    simp [invariantsHold, hs, hid, hdef, htimer]
  | activeWaiting =>
    obtain ⟨hid, hdef⟩ := h.running (by rw [hs]; simp)
    have htimer := (hout.active (Or.inl hs)).2
    simp [invariantsHold, hs, hid, hdef, htimer]
  | activeCancelling =>
    obtain ⟨hid, hdef⟩ := h.running (by rw [hs]; simp)
    have htimer := (hout.active (Or.inr hs)).2
    simp [invariantsHold, hs, hid, hdef, htimer]

omit [ToString U] [DecidableEq U] in
theorem checkInvariants_failed {r : BRURetry U D K} {a : Assertion}
    (h : checkInvariants r = .error (.failed a)) : a = .invalidState :=
  (assertThat_eq_failed.mp h).2.symm

omit [ToString U] [DecidableEq U] in
/-- The block of a start can only fail `checkInvariants`. -/
theorem startSync_failed {r : BRURetry U D K} {uuid : U} {completion : Option K}
    {a : Assertion} (h : startSync uuid completion r = .error (.failed a)) :
    a = .invalidState := by
  cases hs : r.state with
  | idle =>
    simp [startSync, hs, performAction] at h
    exact checkInvariants_failed h
  | delay =>
    simp [startSync, hs] at h
    exact checkInvariants_failed h
  | activeWaiting =>
    simp [startSync, hs] at h
    exact checkInvariants_failed h
  | activeCancelling =>
    simp [startSync, hs] at h
    exact checkInvariants_failed h

theorem cancel_failed {r : BRURetry U D K} {id : U} {a : Assertion}
    (h : cancel id r = .error (.failed a)) : a = .invalidState := by
  unfold cancel at h
  split at h
  · simp [pure, Except.pure] at h
  · simp at h
    exact checkInvariants_failed h

omit [DecidableEq U] in
/-- `handleResult` finds no timer, so it can only fail `checkInvariants`. -/
theorem handleResult_failed {r : BRURetry U D K} {success : Bool}
    {error : Option NSError} {response : BRURetryPolicyResponse} {nextDelay : D}
    {a : Assertion} (htimer : r.timer = none)
    (h : handleResult success error response nextDelay r = .error (.failed a)) :
    a = .invalidState := by
  by_cases hterm : Terminates success response r
  · rw [(handleResult_eq ..).1 hterm] at h
    simp at h
    exact checkInvariants_failed h
  · rw [(handleResult_eq ..).2 hterm] at h
    simp [htimer] at h
    exact checkInvariants_failed h

/-- The assertions of `scheduleNextAction`, of `performAction` and of the
timer's block never fail. -/
theorem step_failed {r : BRURetry U D K} {e : Event U D K} {a : Assertion}
    (hout : SingleOutstanding r) (h : Consistent r)
    (hstep : step r e = .error (.failed a)) :
    a = .invalidState ∨ a = .inconsistentResults ∨
      ∃ run, e = .runDeferred run ∧ (r.deferreds run).runSync = .error (.failed a) := by
  cases e with
  | start uuid completion =>
    simp [step] at hstep
    exact Or.inl (startSync_failed hstep)
  | cancel id =>
    simp [step] at hstep
    exact Or.inl (cancel_failed hstep)
  | runAction =>
    simp only [step] at hstep
    split at hstep <;> simp at hstep
  | continuation attempt result => simp [step] at hstep
  | runPolicy response left =>
    simp only [step] at hstep
    split at hstep <;> simp at hstep
  | runSync =>
    cases hq : r.syncQueue with
    | nil => simp [step, hq] at hstep
    | cons block rest =>
      have htimer := (hout.of_syncQueue hq).2.1
      cases block with
      | continuation attempt result =>
        simp only [step, hq, processContinuation, bind_eq_failed, assertThat_eq_failed] at hstep
        rcases hstep with ⟨_, ha⟩ | ⟨_, _, hstep⟩
        · exact Or.inr (Or.inl ha.symm)
        · split at hstep
          · simp at hstep
          · exact Or.inl (handleResult_failed (by exact htimer) hstep)
      | policyResult success error response nextDelay =>
        simp only [step, hq] at hstep
        exact Or.inl (handleResult_failed (by exact htimer) hstep)
  | timerCallback =>
    cases htimer : r.timer with
    | none => simp [step, htimer] at hstep
    | some timer =>
      have hdelay := (hout.delay_of_timer (by rw [htimer]; simp)).1
      have hsome := (h.running (by rw [hdelay]; simp)).1
      have hid : isEqual timer.identifier r.identifier = true := by
        rw [h.timer timer htimer]
        exact isEqual_iff.mpr ⟨rfl, hsome⟩
      simp [step, htimer, timerCallback, performAction, hid] at hstep
  | runDeferred run =>
    simp only [step, bind_eq_failed, pure_ne_failed, and_false, exists_false, or_false] at hstep
    exact Or.inr (Or.inr ⟨run, rfl, hstep⟩)
  | runCompletion =>
    simp only [step] at hstep
    split at hstep <;> simp at hstep

/-! ## Single outstanding work -/

/-- After any interleaving nothing is out in Idle, one armed timer is out in
Delay, and in both active states one piece of work of the current attempt is
out and no timer.  No callback, attempt or schedule comes unexpectedly. -/
theorem single_outstanding_work {delay : D} {events : List (Event U D K)}
    {r : BRURetry U D K} (hrun : run step (initWithActionBlock delay) events = .ok r) :
    (r.state = .idle →
      r.queuedActions = 0 ∧ r.uncalledContinuations = 0 ∧
        r.queuedContinuationResults = 0 ∧ r.queuedPolicies = 0 ∧
        r.queuedPolicyResults = 0 ∧ r.timer = none) ∧
    (r.state = .delay →
      (r.queuedActions = 0 ∧ r.uncalledContinuations = 0 ∧
        r.queuedContinuationResults = 0 ∧ r.queuedPolicies = 0 ∧
        r.queuedPolicyResults = 0) ∧ ∃ timer, r.timer = some timer) ∧
    (r.state = .activeWaiting ∨ r.state = .activeCancelling →
      r.queuedActions + r.uncalledContinuations + r.queuedContinuationResults +
        r.queuedPolicies + r.queuedPolicyResults = 1 ∧ r.timer = none) ∧
    ∀ e a, step r e = .error (.failed a) →
      a ≠ .alreadyScheduled ∧ a ≠ .performActionNotRunning ∧ a ≠ .unexpectedCallback := by
  obtain ⟨hout, hcons⟩ := invariants_of_reachable ⟨events, hrun⟩
  refine ⟨?_, ?_, ?_, ?_⟩
  · intro hs
    obtain ⟨hwork, htimer⟩ := hout.idle hs
    unfold attemptWork at hwork
    exact ⟨by omega, by omega, by omega, by omega, by omega, htimer⟩
  · intro hs
    obtain ⟨hwork, htimer⟩ := hout.delay hs
    unfold attemptWork at hwork
    exact ⟨⟨by omega, by omega, by omega, by omega, by omega⟩,
      Option.isSome_iff_exists.mp htimer⟩
  · exact hout.active
  · intro e a hstep
    rcases step_failed hout hcons hstep with ha | ha | ⟨run, _, hdef⟩
    · simp [ha]
    · simp [ha]
    · simp [BRUDeferred.runSync_failed hdef]

/-- A failed attempt, its retry, and a cancel while the second action waits. -/
def cancelledRetry : List (Event Nat Nat Nat) :=
  [.start 7 none, .runAction, .continuation 1 ⟨false, some ⟨"d", 1, []⟩, .transient⟩,
    .runSync, .runPolicy .retry 3, .runSync, .timerCallback, .cancel 7]

theorem single_outstanding_work_cancelledRetry : ∃ r : BRURetry Nat Nat Nat,
    run step (initWithActionBlock 5) cancelledRetry = .ok r ∧
      r.queuedActions + r.uncalledContinuations + r.queuedContinuationResults +
        r.queuedPolicies + r.queuedPolicyResults = 1 ∧ r.timer = none := by
  obtain ⟨r, hrun, hs⟩ : ∃ r : BRURetry Nat Nat Nat,
      run step (initWithActionBlock 5) cancelledRetry = .ok r ∧
        r.state = .activeCancelling := ⟨_, rfl, rfl⟩
  exact ⟨r, hrun, (single_outstanding_work hrun).2.2.1 (Or.inr hs)⟩

end BRURetry

end BromiumCoreUtils
