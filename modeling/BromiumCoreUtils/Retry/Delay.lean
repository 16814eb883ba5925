import BromiumCoreUtils.Retry.Attempt

/-!
# The delay on its way through the policy

`lastCall` reads off the log what the last policy call of the current run
answered.  `ThreadedBy start` is the documentation of `BRURetryPolicyBlock`,
with `start` for the delay that a run starts with: every policy call sees what
the call before it left, and every timer is armed with what the last call left.

The code threads the delay from `startDelay`, since `_currentDelay` has no
value of its own before the first run ends.  `delayContract_iff` is what that
means for the documentation.
-/

namespace BromiumCoreUtils

open Machine

/-- The entry begins a run. -/
def RetryObservation.beginsRun {U D K : Type} : RetryObservation U D K → Bool
  | .start .idle _ => true
  | _ => false

/-- The entry is a policy call. -/
def RetryObservation.isPolicy {U D K : Type} : RetryObservation U D K → Bool
  | .policy .. => true
  | _ => false

namespace BRURetry

variable {U D K : Type}

/-! ## What the log says about delays -/

/-- How one entry changes what the last policy call of the run answered. -/
def noteCall (last : Option (BRURetryPolicyResponse × D)) :
    RetryObservation U D K → Option (BRURetryPolicyResponse × D)
  | .start .idle _ => none
  | .policy _ _ _ response left => some (response, left)
  | _ => last

/-- The answer of the last policy call of the current run. -/
def lastCall (log : List (RetryObservation U D K)) : Option (BRURetryPolicyResponse × D) :=
  log.foldl noteCall none

/-- How many runs a log has begun. -/
def runsBegun (log : List (RetryObservation U D K)) : Nat :=
  log.countP RetryObservation.beginsRun

/-- The delay that the code is at: what the last call of the run left, and
before the first call the delay that the run started with. -/
def threadedDelay (start : List (RetryObservation U D K) → D)
    (log : List (RetryObservation U D K)) : D :=
  (lastCall log).elim (start log) Prod.snd

/-- A policy call sees the threaded delay, and a timer is armed after a call
that answered Retry, with the delay that this call left. -/
def ThreadedBy (start : List (RetryObservation U D K) → D)
    (before : List (RetryObservation U D K)) : RetryObservation U D K → Prop
  | .policy _ _ entry _ _ => entry = threadedDelay start before
  | .schedule timer => lastCall before = some (.retry, timer.interval)
  | _ => True

/-- The delay that the code starts a run with. -/
def startDelay [NSTimeInterval D] (delay : D) (log : List (RetryObservation U D K)) : D :=
  if runsBegun log ≤ 1 then NSTimeInterval.zero else delay

@[simp] theorem lastCall_concat (log : List (RetryObservation U D K))
    (o : RetryObservation U D K) : lastCall (log ++ [o]) = noteCall (lastCall log) o := by
  simp [lastCall]

@[simp] theorem runsBegun_append (log log' : List (RetryObservation U D K)) :
    runsBegun (log ++ log') = runsBegun log + runsBegun log' := by
  simp [runsBegun]

/-- The entries that are not about the delay. -/
def Silent (o : RetryObservation U D K) : Prop :=
  o.beginsRun = false ∧ o.isPolicy = false

theorem noteCall_silent {o : RetryObservation U D K} (ho : Silent o)
    (last : Option (BRURetryPolicyResponse × D)) : noteCall last o = last := by
  obtain ⟨hbegin, hpolicy⟩ := ho
  cases o with
  | start state identifier =>
    cases state with
    | idle => cases hbegin
    | _ => rfl
  | policy => cases hpolicy
  | _ => rfl

theorem lastCall_append (log : List (RetryObservation U D K))
    {entries : List (RetryObservation U D K)} (hentries : ∀ o ∈ entries, Silent o) :
    lastCall (log ++ entries) = lastCall log := by
  induction entries using List.reverseRecOn with
  | nil => rw [List.append_nil]
  | append_singleton entries o ih =>
    rw [← List.append_assoc, lastCall_concat, noteCall_silent (hentries o (by simp)),
      ih fun o' ho' => hentries o' (List.mem_append_left _ ho')]

theorem runsBegun_of_silent {entries : List (RetryObservation U D K)}
    (hentries : ∀ o ∈ entries, Silent o) : runsBegun entries = 0 := by
  rw [runsBegun, List.countP_eq_zero]
  intro o ho
  rw [(hentries o ho).1]
  simp

/-- The events that begin no run and call no policy. -/
def Event.silent : Event U D K → Bool
  | .start .. => false
  | .runPolicy .. => false
  | _ => true

theorem Event.silent_of_logs {e : Event U D K} {o : RetryObservation U D K}
    (hsilent : e.silent = true) (hlogs : e.logs o = true) : Silent o := by
  cases e <;> cases o <;> simp_all [Event.silent, Event.logs, Silent,
    RetryObservation.beginsRun, RetryObservation.isPolicy]

/-! ## The invariant -/

/-- What `currentDelay` and the work in flight carry. -/
structure Delays [NSTimeInterval D] (delay : D) (r : BRURetry U D K) : Prop where
  delay_eq : r.delay = delay
  runs_eq : runsBegun r.log = r.runs
  running : r.state ≠ .idle → 0 < r.runs
  idle : r.state = .idle →
    r.currentDelay = if r.runs = 0 then NSTimeInterval.zero else delay
  /-- Unless a policy call was answered and not handled yet, `currentDelay` is
  the threaded delay, -/
  settled : r.state ≠ .idle →
    (∀ success error response nextDelay,
      .policyResult success error response nextDelay ∉ r.syncQueue) →
    r.currentDelay = threadedDelay (startDelay delay) r.log
  /-- a queued policy call carries it, -/
  asked : ∀ success error attempt nextDelay,
    .policy success error attempt nextDelay ∈ r.targetQueue →
      nextDelay = threadedDelay (startDelay delay) r.log
  /-- and a queued answer is the one of the last call. -/
  answered : ∀ success error response nextDelay,
    .policyResult success error response nextDelay ∈ r.syncQueue →
      lastCall r.log = some (response, nextDelay)

namespace Delays

variable [NSTimeInterval D] {delay : D} {r r' : BRURetry U D K}

/-- Silent entries do not move the threaded delay. -/
theorem threadedDelay_append (log : List (RetryObservation U D K))
    {entries : List (RetryObservation U D K)} (hentries : ∀ o ∈ entries, Silent o) :
    threadedDelay (startDelay delay) (log ++ entries) =
      threadedDelay (startDelay delay) log := by
  rw [threadedDelay, threadedDelay, lastCall_append log hentries, startDelay, startDelay,
    runsBegun_append, runsBegun_of_silent hentries, Nat.add_zero]

/-- The invariant survives a silent step that leaves the delays alone and adds
no answer. -/
theorem congr (h : Delays delay r) (hdelay : r'.delay = r.delay) (hruns : r'.runs = r.runs)
    (hidle : r'.state = .idle ↔ r.state = .idle) (hcurrent : r'.currentDelay = r.currentDelay)
    (hlog : ∃ entries, r'.log = r.log ++ entries ∧ ∀ o ∈ entries, Silent o)
    (hpolicy : ∀ success error attempt nextDelay,
      .policy success error attempt nextDelay ∈ r'.targetQueue →
        .policy success error attempt nextDelay ∈ r.targetQueue)
    (hanswer : ∀ success error response nextDelay,
      .policyResult success error response nextDelay ∈ r'.syncQueue ↔
        .policyResult success error response nextDelay ∈ r.syncQueue) :
    Delays delay r' := by
  obtain ⟨entries, hlog, hentries⟩ := hlog
  refine
    { delay_eq := ?_, runs_eq := ?_, running := ?_, idle := ?_, settled := ?_, asked := ?_,
      answered := ?_ }
  · rw [hdelay, h.delay_eq]
  · rw [hlog, runsBegun_append, runsBegun_of_silent hentries, hruns, h.runs_eq, Nat.add_zero]
  · intro hs
    rw [hruns]
    exact h.running fun hi => hs (hidle.mpr hi)
  · intro hs
    rw [hcurrent, hruns]
    exact h.idle (hidle.mp hs)
  · intro hs hnone
    rw [hcurrent, hlog, threadedDelay_append r.log hentries]
    refine h.settled (fun hi => hs (hidle.mpr hi)) ?_
    intro success error response nextDelay hmem
    exact hnone _ _ _ _ ((hanswer _ _ _ _).mpr hmem)
  · intro success error attempt nextDelay hmem
    rw [hlog, threadedDelay_append r.log hentries]
    exact h.asked _ _ _ _ (hpolicy _ _ _ _ hmem)
  · intro success error response nextDelay hmem
    rw [hlog, lastCall_append r.log hentries]
    exact h.answered _ _ _ _ ((hanswer _ _ _ _).mp hmem)

/-- A run that ends resets `currentDelay`. -/
theorem of_ended (h : Delays delay r) (hruns : 0 < r.runs) (hruns' : r'.runs = r.runs)
    (hdelay : r'.delay = r.delay) (hs : r'.state = .idle)
    (hcurrent : r'.currentDelay = r.delay) (hnone : NoWork r')
    (hlog : ∃ entries, r'.log = r.log ++ entries ∧ ∀ o ∈ entries, Silent o) :
    Delays delay r' := by
  obtain ⟨entries, hlog, hentries⟩ := hlog
  refine
    { delay_eq := ?_, runs_eq := ?_, running := fun hne => absurd hs hne, idle := ?_,
      settled := fun hne => absurd hs hne, asked := ?_, answered := ?_ }
  · rw [hdelay, h.delay_eq]
  · rw [hlog, runsBegun_append, runsBegun_of_silent hentries, hruns', h.runs_eq, Nat.add_zero]
  · intro _
    rw [if_neg (by omega), hcurrent, h.delay_eq]
  · intro success error attempt nextDelay hmem
    exact absurd hmem (hnone.policy _ _ _ _)
  · intro success error response nextDelay hmem
    rw [hnone.syncQueue] at hmem
    cases hmem

end Delays

/-! ## The steps -/

variable [DecidableEq U] [ToString U] [NSTimeInterval D] {delay : D}

theorem step_log_silent {r r' : BRURetry U D K} {e : Event U D K}
    (hstep : step r e = .ok r') (hsilent : e.silent = true) :
    ∃ entries, r'.log = r.log ++ entries ∧ ∀ o ∈ entries, Silent o := by
  obtain ⟨entries, hlog, hentries⟩ := step_log hstep
  exact ⟨entries, hlog, fun o ho => Event.silent_of_logs hsilent (hentries o ho)⟩

omit [DecidableEq U] [ToString U] [NSTimeInterval D] in
/-- What a start in a running state logs. -/
theorem start_log_silent {r : BRURetry U D K} {state : BRURetryState}
    (hs : state ≠ .idle) (completion : Option K) (identifier : Option U) :
    ∃ entries, ((r.withCompletion completion).record (.start state identifier)).log =
      r.log ++ entries ∧ ∀ o ∈ entries, Silent o := by
  obtain ⟨entries, hlog, hentries⟩ := withCompletion_log r completion
  refine ⟨entries ++ [.start state identifier], by simp [record, hlog], ?_⟩
  intro o ho
  rcases List.mem_append.mp ho with ho | ho
  · obtain ⟨run, block, hreg⟩ := hentries o ho
    rw [hreg]
    exact ⟨rfl, rfl⟩
  · rw [List.mem_singleton.mp ho]
    cases state with
    | idle => exact absurd rfl hs
    | _ => exact ⟨rfl, rfl⟩

omit [DecidableEq U] [ToString U] in
theorem delays_init : Delays delay (initWithActionBlock delay : BRURetry U D K) where
  delay_eq := rfl
  runs_eq := rfl
  running h := absurd rfl h
  idle _ := rfl
  settled h := absurd rfl h
  asked _ _ _ _ hmem := by cases hmem
  answered _ _ _ _ hmem := by cases hmem

omit [DecidableEq U] [ToString U] in
/-- A run begins with what `currentDelay` holds. -/
theorem Delays.begin {r : BRURetry U D K} (h : Delays delay r) (hout : SingleOutstanding r)
    (hs : r.state = .idle) (uuid : U) (completion : Option K) :
    Delays delay (((r.begun uuid).withCompletion completion).record
      (.start .idle (some uuid))) := by
  have hnone := noWork_of_attemptWork (hout.idle hs).1
  obtain ⟨entries, hlog, hentries⟩ := withCompletion_log (r.begun uuid) completion
  have hruns : runsBegun (((r.begun uuid).withCompletion completion).record
      (.start .idle (some uuid))).log = r.runs + 1 := by
    have hzero : runsBegun entries = 0 := by
      apply runsBegun_of_silent
      intro o ho
      obtain ⟨run, block, hreg⟩ := hentries o ho
      rw [hreg]
      exact ⟨rfl, rfl⟩
    rw [record, hlog, begun, runsBegun_append, runsBegun_append, runsBegun_append, hzero,
      h.runs_eq]
    rfl
  refine
    { delay_eq := ?_, runs_eq := ?_, running := ?_, idle := ?_, settled := ?_, asked := ?_,
      answered := ?_ }
  · simpa [record, begun] using h.delay_eq
  · rw [hruns]
    simp [record, begun]
  · intro _
    simp [record, begun]
  · intro hi
    simp [record, begun] at hi
  · intro _ _
    have hcall : lastCall (((r.begun uuid).withCompletion completion).record
        (.start .idle (some uuid))).log = none := lastCall_concat _ _
    rw [threadedDelay, hcall, startDelay, hruns]
    have hcurrent := h.idle hs
    simpa [record, begun] using hcurrent
  · intro success error attempt nextDelay hmem
    have hmem' : .policy success error attempt nextDelay ∈ r.targetQueue := by
      simpa [record, begun] using hmem
    exact absurd hmem' (hnone.policy _ _ _ _)
  · intro success error response nextDelay hmem
    simp [record, begun, hnone.syncQueue] at hmem

omit [DecidableEq U] [ToString U] in
/-- The policy is asked with `currentDelay`, which is the threaded delay for the
queue is empty then. -/
theorem Delays.askPolicy {r : BRURetry U D K} (h : Delays delay r)
    (hout : SingleOutstanding r) {attempt : Nat} {result : ContinuationResult}
    {rest : List (RetrySyncBlock D)}
    (hq : r.syncQueue = .continuation attempt result :: rest) :
    Delays delay { r with
      syncQueue := rest
      targetQueue := r.targetQueue ++
        [.policy false result.error attempt r.currentDelay] } := by
  have hactive := (hout.of_syncQueue hq).1
  have hrest : rest = [] := (noWork_of_attemptWork (hout.of_syncQueue hq).2.2).syncQueue
  have hcurrent : r.currentDelay = threadedDelay (startDelay delay) r.log := by
    apply h.settled
    · rcases hactive with hs | hs <;> rw [hs] <;> simp
    · intro success error response nextDelay hmem
      rw [hq, hrest] at hmem
      simp at hmem
  refine
    { delay_eq := h.delay_eq, runs_eq := h.runs_eq, running := h.running, idle := h.idle,
      settled := fun _ _ => hcurrent, asked := ?_, answered := ?_ }
  · intro success error other nextDelay hmem
    rcases List.mem_append.mp hmem with hmem | hmem
    · exact h.asked _ _ _ _ hmem
    · simp only [List.mem_singleton, RetryTargetBlock.policy.injEq] at hmem
      rw [hmem.2.2.2]
      exact hcurrent
  · intro success error response nextDelay hmem
    exact h.answered _ _ _ _ (by rw [hq]; exact List.mem_cons_of_mem _ hmem)

omit [DecidableEq U] [ToString U] in
/-- The answer of a policy call is the last one. -/
theorem Delays.runPolicy {r : BRURetry U D K} (h : Delays delay r)
    (hout : SingleOutstanding r) {success : Bool} {error : Option NSError} {attempt : Nat}
    {nextDelay left : D} {response : BRURetryPolicyResponse}
    {rest : List (RetryTargetBlock D K)}
    (hq : r.targetQueue = .policy success error attempt nextDelay :: rest) :
    Delays delay { r with
      targetQueue := rest
      syncQueue := r.syncQueue ++ [.policyResult success error response left]
      log := r.log ++ [.policy attempt error nextDelay response left] } := by
  have hnone := noWork_of_asked hout hq
  have hcall : lastCall (r.log ++ [.policy attempt error nextDelay response left]) =
      some (response, left) := lastCall_concat _ _
  refine
    { delay_eq := h.delay_eq, runs_eq := ?_, running := h.running, idle := h.idle,
      settled := ?_, asked := ?_, answered := ?_ }
  · rw [runsBegun_append, h.runs_eq]
    rfl
  · intro _ hanswer
    exact absurd (by simp) (hanswer success error response left)
  · intro success' error' other nextDelay' hmem
    exact absurd hmem (hnone.policy _ _ _ _)
  · intro success' error' response' nextDelay' hmem
    have hnil : r.syncQueue = [] := hnone.syncQueue
    simp only [hnil, List.nil_append, List.mem_singleton,
      RetrySyncBlock.policyResult.injEq] at hmem
    rw [hcall, hmem.2.2.1, hmem.2.2.2]

omit [DecidableEq U] in
theorem Delays.terminate {r : BRURetry U D K} (h : Delays delay r)
    (hout : SingleOutstanding r) {block : RetrySyncBlock D} {rest : List (RetrySyncBlock D)}
    (hq : r.syncQueue = block :: rest) (success : Bool) (error : Option NSError) :
    Delays delay (terminated success error { r with syncQueue := rest }) := by
  obtain ⟨hactive, _, hwork⟩ := hout.of_syncQueue hq
  have hruns := h.running (by rcases hactive with hs | hs <;> rw [hs] <;> simp)
  obtain ⟨entries, hlog, hentries⟩ := terminated_log success error { r with syncQueue := rest }
  refine h.of_ended hruns ?_ ?_ ?_ ?_ ?_ ⟨entries, hlog, ?_⟩
  · simp [terminated]
  · simp [terminated]
  · simp [terminated]
  · simp [terminated]
  · exact noWork_of_attemptWork (by rw [terminated_attemptWork]; exact hwork)
  · intro o ho
    obtain ⟨run, result, heq⟩ := hentries o ho
    rw [heq]
    exact ⟨rfl, rfl⟩

omit [DecidableEq U] [ToString U] in
/-- The timer is armed with the delay of the answer. -/
theorem Delays.schedule {r : BRURetry U D K} (h : Delays delay r)
    (hout : SingleOutstanding r) {success : Bool} {error : Option NSError}
    {response : BRURetryPolicyResponse} {nextDelay : D} {rest : List (RetrySyncBlock D)}
    (hq : r.syncQueue = .policyResult success error response nextDelay :: rest) :
    Delays delay (scheduled nextDelay { r with syncQueue := rest }) := by
  obtain ⟨hactive, _, hwork⟩ := hout.of_syncQueue hq
  have hruns := h.running (by rcases hactive with hs | hs <;> rw [hs] <;> simp)
  have hcall := h.answered success error response nextDelay (by rw [hq]; simp)
  have hnone := noWork_of_attemptWork hwork
  have hsilent : ∀ o ∈ [(.schedule ⟨r.timers, nextDelay, r.identifier⟩ :
      RetryObservation U D K)], Silent o := by
    intro o ho
    rw [List.mem_singleton.mp ho]
    exact ⟨rfl, rfl⟩
  refine
    { delay_eq := h.delay_eq, runs_eq := ?_, running := fun _ => hruns, idle := ?_,
      settled := ?_, asked := ?_, answered := ?_ }
  · rw [scheduled, runsBegun_append, runsBegun_of_silent hsilent, Nat.add_zero, h.runs_eq]
  · intro hi
    cases hi
  · intro _ _
    rw [scheduled, Delays.threadedDelay_append r.log hsilent, threadedDelay, hcall]
    rfl
  · intro success' error' attempt nextDelay' hmem
    exact absurd hmem (hnone.policy _ _ _ _)
  · intro success' error' response' nextDelay' hmem
    exact absurd hmem (by rw [scheduled, hnone.syncQueue]; simp)

/-- One step keeps the delays. -/
theorem step_delays {r r' : BRURetry U D K} {e : Event U D K} (hout : SingleOutstanding r)
    (h : Delays delay r) (hstep : step r e = .ok r') : Delays delay r' := by
  have hout' := step_singleOutstanding hout hstep
  have hsilent := step_log_silent hstep
  cases step_transition hstep with
  | @startIdle uuid completion hs => exact h.begin hout hs uuid completion
  | @startJoin uuid completion hs =>
    have hne : r.state ≠ .idle := by rcases hs with hs | hs <;> rw [hs] <;> simp
    refine h.congr ?_ ?_ ?_ ?_ (start_log_silent hne completion none) ?_ ?_ <;> simp [record]
  | @startRestore uuid completion hs =>
    refine h.congr ?_ ?_ ?_ ?_ (start_log_silent (by simp) completion r.identifier) ?_ ?_ <;>
      simp [record, hs]
  | cancelIgnored _ =>
    exact h.congr rfl rfl Iff.rfl rfl (hsilent rfl) (fun _ _ _ _ hm => hm) fun _ _ _ _ => Iff.rfl
  | cancelDelay _ hs =>
    have hruns := h.running (by rw [hs]; simp)
    refine h.of_ended hruns ?_ ?_ ?_ ?_ ?_ (hsilent rfl)
    · simp [record, released, suspendTimer]
    · simp [record, released, suspendTimer]
    · simp [record, released]
    · simp [record, released]
    · exact noWork_of_attemptWork (hout'.idle (by simp [record, released])).1
  | cancelWaiting _ hs _ =>
    refine h.congr rfl rfl ?_ rfl (hsilent rfl) (fun _ _ _ _ hm => hm) fun _ _ _ _ => Iff.rfl
    simp [record, hs]
  | @runAction attempt rest hq =>
    refine h.congr rfl rfl Iff.rfl rfl (hsilent rfl) ?_ fun _ _ _ _ => Iff.rfl
    intro success error other nextDelay hmem
    rw [hq]
    exact List.mem_cons_of_mem _ hmem
  | continuation _ =>
    refine h.congr rfl rfl Iff.rfl rfl (hsilent rfl) (fun _ _ _ _ hm => hm) ?_
    intro success error response nextDelay
    simp
  | askPolicy hq _ _ _ _ => exact h.askPolicy hout hq
  | @finish attempt result rest hq _ _ => exact h.terminate hout hq result.success result.error
  | runPolicy hq => exact h.runPolicy hout hq
  | @policyStop success error response nextDelay rest hq _ =>
    exact h.terminate hout hq success error
  | policyRetry hq _ _ => exact h.schedule hout hq
  | timerCallback htimer _ =>
    have hdelay := (hout.delay_of_timer (by rw [htimer]; simp)).1
    refine h.congr rfl rfl ?_ rfl (hsilent rfl) ?_ fun _ _ _ _ => Iff.rfl
    · simp [resumed, hdelay]
    · intro success error attempt nextDelay hmem
      simpa [resumed] using hmem
  | @runDeferred run deferred blocks hrun =>
    refine h.congr rfl rfl Iff.rfl rfl (hsilent rfl) ?_ fun _ _ _ _ => Iff.rfl
    intro success error attempt nextDelay hmem
    simpa using hmem
  | @runCompletion run block rest hq =>
    refine h.congr rfl rfl Iff.rfl rfl (hsilent rfl) ?_ fun _ _ _ _ => Iff.rfl
    intro success error attempt nextDelay hmem
    rw [hq]
    exact List.mem_cons_of_mem _ hmem

omit [DecidableEq U] [NSTimeInterval D] in
/-- A resolution needs no justification. -/
theorem threaded_terminated {r : BRURetry U D K} {start : List (RetryObservation U D K) → D}
    (hlog : Log.Justified (ThreadedBy start) r.log) (success : Bool)
    (error : Option NSError) :
    Log.Justified (ThreadedBy start) (r.terminated success error).log := by
  obtain ⟨entries, hgrown, hentries⟩ := terminated_log success error r
  rw [hgrown]
  apply hlog.append
  intro o ho pre
  obtain ⟨run, result, heq⟩ := hentries o ho
  rw [heq]
  trivial

/-- One step threads the delay from `startDelay`. -/
theorem step_threaded {r r' : BRURetry U D K} {e : Event U D K} (h : Delays delay r)
    (hlog : Log.Justified (ThreadedBy (startDelay delay)) r.log)
    (hstep : step r e = .ok r') : Log.Justified (ThreadedBy (startDelay delay)) r'.log := by
  cases e with
  | runPolicy response left =>
    cases step_transition hstep with
    | @runPolicy _ _ success error attempt nextDelay rest hq =>
      refine Log.justified_concat_iff.mpr ⟨hlog, ?_⟩
      exact h.asked success error attempt nextDelay (by rw [hq]; simp)
  | runSync =>
    cases step_transition hstep with
    | askPolicy _ _ _ _ _ => exact hlog
    | finish _ _ _ =>
      apply threaded_terminated
      exact hlog
    | policyStop _ _ =>
      apply threaded_terminated
      exact hlog
    | @policyRetry success error response nextDelay rest hq hterm _ =>
      refine Log.justified_concat_iff.mpr ⟨hlog, ?_⟩
      have hretry : response = .retry := by
        cases response with
        | retry => rfl
        | stop => exact absurd (Or.inr (Or.inr rfl)) hterm
      have hcall := h.answered success error response nextDelay (by rw [hq]; simp)
      rw [hretry] at hcall
      exact hcall
  | _ =>
    obtain ⟨entries, hlog', hentries⟩ := step_log hstep
    rw [hlog']
    apply hlog.append
    intro o ho pre
    have hlogs := hentries o ho
    cases o with
    | policy attempt error entry response left => cases hlogs
    | schedule timer => cases hlogs
    | _ => trivial

/-- The code threads the delay from `startDelay` in every reachable state. -/
theorem threaded_of_reachable {r : BRURetry U D K}
    (h : Reachable step (initWithActionBlock delay) r) :
    Log.Justified (ThreadedBy (startDelay delay)) r.log := by
  have hboth : Delays delay r ∧ Log.Justified (ThreadedBy (startDelay delay)) r.log := by
    refine h.invariant (I := fun r => Delays delay r ∧
      Log.Justified (ThreadedBy (startDelay delay)) r.log) ⟨delays_init, Log.justified_nil _⟩ ?_
    intro r e r' hr hinv hstep
    exact ⟨step_delays (invariants_of_reachable hr).1 hinv.1 hstep,
      step_threaded hinv.1 hinv.2 hstep⟩
  exact hboth.2

/-! ## The documentation -/

/-- The documentation of the delay: every run starts with the delay of the
object, and with a policy that never writes `*delay` every wait lasts that
long. -/
structure DelayContract (delay : D) (r : BRURetry U D K) : Prop where
  threaded : Log.Justified (ThreadedBy fun _ => delay) r.log
  constant :
    (∀ attempt error entry response left,
      .policy attempt error entry response left ∈ r.log → left = entry) →
    ∀ timer, .schedule timer ∈ r.log → timer.interval = delay

/-- A policy was called in the first run. -/
def FirstRunAsksPolicy (log : List (RetryObservation U D K)) : Prop :=
  ∃ pre o post, log = pre ++ o :: post ∧ o.isPolicy = true ∧ runsBegun pre ≤ 1

omit [DecidableEq U] [ToString U] [NSTimeInterval D] in
/-- An answer in the log is the one of a call. -/
theorem exists_policy_of_lastCall {log : List (RetryObservation U D K)}
    {answer : BRURetryPolicyResponse × D} (h : lastCall log = some answer) :
    ∃ pre attempt error entry post,
      log = pre ++ .policy attempt error entry answer.1 answer.2 :: post := by
  induction log using List.reverseRecOn with
  | nil => cases h
  | append_singleton log o ih =>
    rw [lastCall_concat] at h
    by_cases hsilent : Silent o
    · rw [noteCall_silent hsilent] at h
      obtain ⟨pre, attempt, error, entry, post, hlog⟩ := ih h
      exact ⟨pre, attempt, error, entry, post ++ [o], by rw [hlog]; simp⟩
    · cases o with
      | start state identifier =>
        cases state with
        | idle => cases h
        | _ => exact absurd ⟨rfl, rfl⟩ hsilent
      | policy attempt error entry response left =>
        injection h with h
        rw [← h]
        exact ⟨log, attempt, error, entry, [], rfl⟩
      | _ => exact absurd ⟨rfl, rfl⟩ hsilent

omit [DecidableEq U] [ToString U] [NSTimeInterval D] in
/-- The first policy call of the first run finds no answer. -/
theorem exists_first_call {log pre post : List (RetryObservation U D K)}
    {o : RetryObservation U D K} (hlog : log = pre ++ o :: post) (ho : o.isPolicy = true)
    (hpre : runsBegun pre ≤ 1) :
    ∃ pre' o' post', log = pre' ++ o' :: post' ∧ o'.isPolicy = true ∧
      runsBegun pre' ≤ 1 ∧ lastCall pre' = none := by
  induction hlen : pre.length using Nat.strongRecOn generalizing pre o post with
  | ind n ih =>
    cases hcall : lastCall pre with
    | none => exact ⟨pre, o, post, hlog, ho, hpre, hcall⟩
    | some answer =>
      -- an earlier call of the same run
      obtain ⟨pre', attempt, error, entry, post', hsplit⟩ := exists_policy_of_lastCall hcall
      have hle : runsBegun pre' ≤ runsBegun pre := by
        rw [hsplit, runsBegun_append]
        omega
      have hlt : pre'.length < n := by
        rw [← hlen, hsplit]
        simp
      have hlog' : log = pre' ++ .policy attempt error entry answer.1 answer.2 ::
          (post' ++ o :: post) := by
        rw [hlog, hsplit]
        simp
      exact ih pre'.length hlt hlog' rfl (by omega) rfl

omit [DecidableEq U] [ToString U] [NSTimeInterval D] in
/-- With a policy that never writes the delay, the threaded delay is the one
that the runs start with. -/
theorem threadedDelay_of_constant {log : List (RetryObservation U D K)}
    (h : Log.Justified (ThreadedBy fun _ => delay) log)
    (hconst : ∀ attempt error entry response left,
      .policy attempt error entry response left ∈ log → left = entry) :
    threadedDelay (fun _ => delay) log = delay := by
  induction log using List.reverseRecOn with
  | nil => rfl
  | append_singleton log o ih =>
    obtain ⟨hlog, ho⟩ := Log.justified_concat_iff.mp h
    have hih := ih hlog fun attempt error entry response left hmem =>
      hconst attempt error entry response left (List.mem_append_left _ hmem)
    rw [threadedDelay, lastCall_concat]
    by_cases hsilent : Silent o
    · rw [noteCall_silent hsilent]
      exact hih
    · cases o with
      | start state identifier =>
        cases state with
        | idle => rfl
        | _ => exact absurd ⟨rfl, rfl⟩ hsilent
      | policy attempt error entry response left =>
        have hleft := hconst attempt error entry response left (by simp)
        have hentry : entry = threadedDelay (fun _ => delay) log := ho
        show left = delay
        rw [hleft, hentry, hih]
      | _ => exact absurd ⟨rfl, rfl⟩ hsilent

omit [DecidableEq U] [ToString U] [NSTimeInterval D] in
/-- The second part of the documentation follows from the first. -/
theorem delayContract_of_threaded {r : BRURetry U D K}
    (h : Log.Justified (ThreadedBy fun _ => delay) r.log) : DelayContract delay r := by
  refine ⟨h, ?_⟩
  intro hconst timer hmem
  obtain ⟨pre, post, hlog⟩ := List.append_of_mem hmem
  have hcall : lastCall pre = some (.retry, timer.interval) := h pre (.schedule timer) post hlog
  have hpre : Log.Justified (ThreadedBy fun _ => delay) pre := by
    rw [hlog] at h
    exact h.of_append
  have hdelay := threadedDelay_of_constant hpre fun attempt error entry response left ho =>
    hconst attempt error entry response left (by rw [hlog]; exact List.mem_append_left _ ho)
  rw [threadedDelay, hcall] at hdelay
  exact hdelay

/-- The documentation holds unless the policy is called in the first run: the
field that holds the delay starts at zero, whatever the delay of the object
is. -/
theorem delayContract_iff {r : BRURetry U D K}
    (hreach : Reachable step (initWithActionBlock delay) r) :
    DelayContract delay r ↔ delay = NSTimeInterval.zero ∨ ¬ FirstRunAsksPolicy r.log := by
  have hcode := threaded_of_reachable hreach
  constructor
  · intro hcontract
    by_contra hneither
    rw [not_or, not_not] at hneither
    obtain ⟨hzero, pre, o, post, hlog, ho, hpre⟩ := hneither
    obtain ⟨pre', o', post', hlog', ho', hpre', hnone⟩ := exists_first_call hlog ho hpre
    cases o' with
    | policy attempt error entry response left =>
      have hdoc := hcontract.threaded pre' _ post' hlog'
      have hreal := hcode pre' _ post' hlog'
      simp only [ThreadedBy, threadedDelay, hnone, Option.elim_none, startDelay,
        if_pos hpre'] at hdoc hreal
      exact hzero (hdoc.symm.trans hreal)
    | _ => cases ho'
  · intro hcond
    apply delayContract_of_threaded
    intro pre o post hlog
    have hreal := hcode pre o post hlog
    cases o with
    | policy attempt error entry response left =>
      have hstart : startDelay delay pre = delay := by
        rw [startDelay]
        split
        · rename_i hfirst
          rcases hcond with hzero | hnone
          · exact hzero.symm
          · exact absurd ⟨pre, _, post, hlog, rfl, hfirst⟩ hnone
        · rfl
      simp only [ThreadedBy, threadedDelay, hstart] at hreal ⊢
      exact hreal
    | schedule timer => exact hreal
    | _ => trivial

/-- One failed attempt, up to the first policy call. -/
def firstFailure : List (Event Nat Nat Nat) :=
  [.start 7 none, .runAction, .continuation 1 ⟨false, some ⟨"d", 1, []⟩, .transient⟩,
    .runSync, .runPolicy .stop 5]

theorem delayContract_firstFailure : ∃ r : BRURetry Nat Nat Nat,
    Machine.run step (initWithActionBlock 0) firstFailure = .ok r ∧ DelayContract 0 r := by
  obtain ⟨r, hrun⟩ : ∃ r : BRURetry Nat Nat Nat,
      Machine.run step (initWithActionBlock 0) firstFailure = .ok r := ⟨_, rfl⟩
  exact ⟨r, hrun, (delayContract_iff ⟨_, hrun⟩).mpr (Or.inl rfl)⟩

/-- With a delay of 5 the first policy call sees 0. -/
theorem first_call_sees_zero : ∃ r : BRURetry Nat Nat Nat,
    Machine.run step (initWithActionBlock 5) firstFailure = .ok r ∧
      .policy 1 (some ⟨"d", 1, []⟩) 0 .stop 5 ∈ r.log ∧ ¬ DelayContract 5 r := by
  obtain ⟨r, hrun, hlog⟩ : ∃ r : BRURetry Nat Nat Nat,
      Machine.run step (initWithActionBlock 5) firstFailure = .ok r ∧
        r.log = [.performAction 1, .start .idle (some 7),
          .continuation 1 ⟨false, some ⟨"d", 1, []⟩, .transient⟩] ++
          .policy 1 (some ⟨"d", 1, []⟩) 0 .stop 5 :: [] := ⟨_, rfl, rfl⟩
  refine ⟨r, hrun, by rw [hlog]; simp, ?_⟩
  intro hcontract
  have hentry := hcontract.threaded _ _ _ hlog
  simp [ThreadedBy, threadedDelay, lastCall, noteCall] at hentry

end BRURetry

end BromiumCoreUtils
