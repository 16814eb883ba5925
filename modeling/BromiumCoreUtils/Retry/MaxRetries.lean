import BromiumCoreUtils.Retry.Completion
import BromiumCoreUtils.Retry.AttemptLoop

/-!
# `BRURetryPolicyBlockWithMaxRetries`

A `BRURetry` whose policy allows `retries` attempts follows the loop of
`BromiumCoreUtils.Retry.AttemptLoop`.  `Follows` says what the client does:
it never cancels a run, the `i`-th attempt of each run reports the `i`-th outcome of
that run, and the policy is the one of the source.  `Simulates` relates the
object to the loop, and `step_simulates` is the step lemma: work of an attempt
is one step of the loop, and every other block is none.

That a run ends takes both halves.  `goes_on` finds work that can be done, or a
then-block in front of it, and the loop pays for each step of work out of its
budget.
-/

namespace BromiumCoreUtils

open Machine

/-- `BRURetryPolicyBlockWithMaxRetries`: the policy block for `retries`, with the value
that it leaves in `*delay`. -/
def BRURetryPolicyBlockWithMaxRetries {D : Type} (retries : Nat) (_error : Option NSError)
    (attempt : Nat) (delay : D) : BRURetryPolicyResponse × D :=
  if attempt ≥ retries then (.stop, delay) else (.retry, delay)

theorem policy_eq_response {D : Type} (retries : Nat) (error : Option NSError) (attempt : Nat)
    (delay : D) : BRURetryPolicyBlockWithMaxRetries retries error attempt delay =
      (AttemptLoop.response retries attempt, delay) := by
  unfold BRURetryPolicyBlockWithMaxRetries AttemptLoop.response
  by_cases h : retries ≤ attempt
  · rw [if_pos h, if_pos h]
  · rw [if_neg h, if_neg h]

namespace BRURetry

variable {U D K : Type}

/-! ## What the object does, and what the client does -/

/-- The milestone of an entry of the log. -/
def milestone : RetryObservation U D K → Option Milestone
  | .performAction attempt => some (.performAction attempt)
  | .continuation attempt result => some (.continuation attempt result)
  | .policy attempt error _ response _ => some (.policy attempt error response)
  | .resolve run result => some (.resolve run result)
  | _ => none

def milestones (log : List (RetryObservation U D K)) : List Milestone :=
  log.filterMap milestone

/-- The client of a `BRURetry` whose runs are never cancelled: attempt `i` of run `n`
reports `outcomes n i`, and the policy allows `retries` attempts. -/
def Follows (retries : Nat) (outcomes : Nat → Nat → AttemptOutcome) (r : BRURetry U D K) :
    Event U D K → Prop
  | .cancel identifier => r.identifier ≠ some identifier
  | .continuation _ result =>
    result = (outcomes (r.runs - 1) (AttemptLoop.ordinal (milestones r.log))).report
  | .runPolicy response left => ∀ success error attempt nextDelay rest,
    r.targetQueue = .policy success error attempt nextDelay :: rest →
      (response, left) = BRURetryPolicyBlockWithMaxRetries retries error attempt nextDelay
  | _ => True

/-- The blocks that are work of an attempt. -/
def Event.isWork : Event U D K → Bool
  | .runAction => true
  | .continuation .. => true
  | .runPolicy .. => true
  | .runSync => true
  | .timerCallback => true
  | _ => false

/-- The call of a then-block.  The action and the policy may be queued behind it. -/
def Event.isCompletion : Event U D K → Bool
  | .runCompletion => true
  | _ => false

def Event.isStart : Event U D K → Bool
  | .start .. => true
  | _ => false

@[simp] theorem milestones_append (log entries : List (RetryObservation U D K)) :
    milestones (log ++ entries) = milestones log ++ milestones entries :=
  List.filterMap_append

theorem milestones_withCompletion (completion : Option K) (r : BRURetry U D K) :
    milestones (r.withCompletion completion).log = milestones r.log := by
  obtain ⟨entries, hlog, hentries⟩ := withCompletion_log r completion
  have hnone : milestones entries = [] := by
    apply List.filterMap_eq_nil_iff.mpr
    intro o ho
    obtain ⟨run, block, hreg⟩ := hentries o ho
    rw [hreg]
    rfl
  rw [hlog, milestones_append, hnone, List.append_nil]

/-! ## The relation -/

/-- The pieces of work of an attempt that are out: queued on `targetQueue`, with the
client, and queued on `syncQueue`. -/
def pieces (r : BRURetry U D K) :
    List (RetryTargetBlock D K) × List Nat × List (RetrySyncBlock D) :=
  (r.targetQueue.filter fun block => block.isAction || block.isPolicy, r.continuations,
    r.syncQueue)

end BRURetry

namespace AttemptLoop.Stage

/-- The state of the object at a stage. -/
def state : Stage → BRURetryState
  | idle => .idle
  | waiting _ => .delay
  | _ => .activeWaiting

/-- The work that is out at a stage.  `nextDelay` is what the policy is called with. -/
def pieces {D K : Type} (retries : Nat) (outcomes : Nat → AttemptOutcome) (nextDelay : D) :
    Stage → List (RetryTargetBlock D K) × List Nat × List (RetrySyncBlock D)
  | idle => ([], [], [])
  | queued n => ([.action (n + 1)], [], [])
  | running n => ([], [n + 1], [])
  | reported n => ([], [], [.continuation (n + 1) (outcomes (n + 1)).report])
  | asked n => ([.policy false (outcomes (n + 1)).error (n + 1) nextDelay], [], [])
  | answered n => ([], [],
      [.policyResult false (outcomes (n + 1)).error (response retries (n + 1)) nextDelay])
  | waiting _ => ([], [], [])

theorem state_eq_idle {stage : Stage} : stage.state = .idle ↔ stage = .idle := by
  cases stage <;> simp [state]

theorem exists_of_state_eq_delay {stage : Stage} (h : stage.state = .delay) :
    ∃ n, stage = .waiting n := by
  cases stage with
  | waiting n => exact ⟨n, rfl⟩
  | _ => cases h

end AttemptLoop.Stage

namespace BRURetry

variable {U D K : Type}

/-- The object is where the loop is.  What happened `before` is not the loop's. -/
structure Simulates (retries : Nat) (outcomes : Nat → Nat → AttemptOutcome)
    (before : List Milestone) (r : BRURetry U D K) (l : AttemptLoop) : Prop where
  runs : r.runs = l.runs
  milestones : milestones r.log = before ++ l.milestones
  state : r.state = l.stage.state
  attempt : r.attempt = l.stage.attempt
  deferred : r.state ≠ .idle → r.deferred = some (l.runs - 1)
  pieces : ∃ nextDelay, r.pieces = l.stage.pieces retries (outcomes (l.runs - 1)) nextDelay

namespace Simulates

variable {retries : Nat} {outcomes : Nat → Nat → AttemptOutcome} {before : List Milestone}
  {r r' : BRURetry U D K} {l : AttemptLoop}

/-- An action on `targetQueue` is the one piece of work. -/
theorem of_action (h : Simulates retries outcomes before r l) {attempt : Nat}
    {rest : List (RetryTargetBlock D K)} (hq : r.targetQueue = .action attempt :: rest) :
    ∃ n, l.stage = .queued n ∧ attempt = n + 1 ∧
      BRURetry.pieces { r with targetQueue := rest } = ([], [], []) := by
  obtain ⟨nextDelay, hpieces⟩ := h.pieces
  cases hs : l.stage <;>
    simp_all [BRURetry.pieces, AttemptLoop.Stage.pieces, RetryTargetBlock.isAction]

/-- A continuation block that was not called is the one piece of work. -/
theorem of_uncalled (h : Simulates retries outcomes before r l) {attempt : Nat}
    (hmem : attempt ∈ r.continuations) :
    ∃ n, l.stage = .running n ∧ attempt = n + 1 ∧
      BRURetry.pieces { r with continuations := r.continuations.erase attempt } =
        ([], [], []) := by
  obtain ⟨nextDelay, hpieces⟩ := h.pieces
  cases hs : l.stage <;> simp_all [BRURetry.pieces, AttemptLoop.Stage.pieces]

/-- A report on `syncQueue` is the one piece of work. -/
theorem of_report (h : Simulates retries outcomes before r l) {attempt : Nat}
    {result : ContinuationResult} {rest : List (RetrySyncBlock D)}
    (hq : r.syncQueue = .continuation attempt result :: rest) :
    ∃ n, l.stage = .reported n ∧ attempt = n + 1 ∧ result = (l.outcome outcomes n).report ∧
      BRURetry.pieces { r with syncQueue := rest } = ([], [], []) := by
  obtain ⟨nextDelay, hpieces⟩ := h.pieces
  cases hs : l.stage <;>
    simp_all [BRURetry.pieces, AttemptLoop.Stage.pieces, AttemptLoop.outcome]

/-- A policy call on `targetQueue` is the one piece of work. -/
theorem of_policy (h : Simulates retries outcomes before r l) {success : Bool}
    {error : Option NSError} {attempt : Nat} {nextDelay : D}
    {rest : List (RetryTargetBlock D K)}
    (hq : r.targetQueue = .policy success error attempt nextDelay :: rest) :
    ∃ n, l.stage = .asked n ∧ success = false ∧ attempt = n + 1 ∧
      error = (l.outcome outcomes n).error ∧
      BRURetry.pieces { r with targetQueue := rest } = ([], [], []) := by
  obtain ⟨nextDelay, hpieces⟩ := h.pieces
  cases hs : l.stage <;>
    simp_all [BRURetry.pieces, AttemptLoop.Stage.pieces, AttemptLoop.outcome,
      RetryTargetBlock.isAction, RetryTargetBlock.isPolicy]

/-- An answer of the policy on `syncQueue` is the one piece of work. -/
theorem of_answer (h : Simulates retries outcomes before r l) {success : Bool}
    {error : Option NSError} {response : BRURetryPolicyResponse} {nextDelay : D}
    {rest : List (RetrySyncBlock D)}
    (hq : r.syncQueue = .policyResult success error response nextDelay :: rest) :
    ∃ n, l.stage = .answered n ∧ success = false ∧ error = (l.outcome outcomes n).error ∧
      response = AttemptLoop.response retries (n + 1) ∧
      BRURetry.pieces { r with syncQueue := rest } = ([], [], []) := by
  obtain ⟨nextDelay, hpieces⟩ := h.pieces
  cases hs : l.stage <;>
    simp_all [BRURetry.pieces, AttemptLoop.Stage.pieces, AttemptLoop.outcome]

/-- The relation survives a step that is no work of an attempt. -/
theorem congr (h : Simulates retries outcomes before r l) (hruns : r'.runs = r.runs)
    (hmilestones : BRURetry.milestones r'.log = BRURetry.milestones r.log)
    (hstate : r'.state = r.state) (hattempt : r'.attempt = r.attempt)
    (hdef : r'.deferred = r.deferred) (hpieces : r'.pieces = r.pieces) :
    Simulates retries outcomes before r' l where
  runs := hruns.trans h.runs
  milestones := hmilestones.trans h.milestones
  state := hstate.trans h.state
  attempt := hattempt.trans h.attempt
  deferred hs := hdef.trans (h.deferred (hstate ▸ hs))
  pieces := by rw [hpieces]; exact h.pieces

/-- The object and the loop go on together inside of a run. -/
theorem advance (h : Simulates retries outcomes before r l) {now stage : AttemptLoop.Stage}
    (hs : l.stage = now) (hnow : now ≠ .idle) {milestones : List Milestone}
    (hruns : r'.runs = r.runs)
    (hmilestones : BRURetry.milestones r'.log = BRURetry.milestones r.log ++ milestones)
    (hstate : r'.state = stage.state) (hattempt : r'.attempt = stage.attempt)
    (hdef : r'.deferred = r.deferred)
    (hpieces : ∃ nextDelay,
      r'.pieces = stage.pieces retries (outcomes (l.runs - 1)) nextDelay) :
    Simulates retries outcomes before r' (l.advance stage milestones) where
  runs := hruns.trans h.runs
  milestones := by rw [hmilestones, h.milestones, List.append_assoc]; rfl
  state := hstate
  attempt := hattempt
  deferred _ := by
    rw [hdef]
    apply h.deferred
    rw [h.state, hs]
    exact fun hidle => hnow (AttemptLoop.Stage.state_eq_idle.mp hidle)
  pieces := hpieces

/-- A block queued on `targetQueue` when no work is out. -/
theorem pieces_of_target (hnone : r.pieces = ([], [], [])) {block : RetryTargetBlock D K}
    (hwork : (block.isAction || block.isPolicy) = true)
    (htarget : r'.targetQueue = r.targetQueue ++ [block])
    (hcont : r'.continuations = r.continuations) (hsync : r'.syncQueue = r.syncQueue) :
    r'.pieces = ([block], [], []) := by
  simp only [BRURetry.pieces, Prod.mk.injEq] at hnone ⊢
  rw [htarget, hcont, hsync, List.filter_append, hnone.1, hnone.2.1, hnone.2.2,
    List.filter_singleton, hwork]
  exact ⟨rfl, rfl, rfl⟩

/-- A continuation block that goes to the client when no work is out. -/
theorem pieces_of_uncalled (hnone : r.pieces = ([], [], [])) {attempt : Nat}
    (htarget : r'.targetQueue = r.targetQueue)
    (hcont : r'.continuations = r.continuations ++ [attempt])
    (hsync : r'.syncQueue = r.syncQueue) : r'.pieces = ([], [attempt], []) := by
  simp only [BRURetry.pieces, Prod.mk.injEq] at hnone ⊢
  rw [htarget, hcont, hsync, hnone.1, hnone.2.1, hnone.2.2]
  exact ⟨rfl, rfl, rfl⟩

/-- A block queued on `syncQueue` when no work is out. -/
theorem pieces_of_sync (hnone : r.pieces = ([], [], [])) {block : RetrySyncBlock D}
    (htarget : r'.targetQueue = r.targetQueue)
    (hcont : r'.continuations = r.continuations)
    (hsync : r'.syncQueue = r.syncQueue ++ [block]) : r'.pieces = ([], [], [block]) := by
  simp only [BRURetry.pieces, Prod.mk.injEq] at hnone ⊢
  rw [htarget, hcont, hsync, hnone.1, hnone.2.1, hnone.2.2]
  exact ⟨rfl, rfl, rfl⟩

end Simulates

/-! ## The step -/

/-- The loop takes one step for work of an attempt, and no step or the beginning of a run
for any other block. -/
def Keeps (retries : Nat) (outcomes : Nat → Nat → AttemptOutcome) (before : List Milestone)
    (r' : BRURetry U D K) (e : Event U D K) (l : AttemptLoop) : Prop :=
  ∃ l', (l' = l ∨ AttemptLoop.Step retries outcomes l l') ∧
    l'.steps = l.steps + (if e.isWork then 1 else 0) ∧ Simulates retries outcomes before r' l'

variable [DecidableEq U] [ToString U] [NSTimeInterval D]

/-- The block that runs next fails `checkInvariants`, since the delay of the object is not
equal to itself. -/
def StoppedByDelay (r : BRURetry U D K) : Prop :=
  NSTimeInterval.doubleEquals r.delay r.delay = false ∧
    step r .runSync = .error (.failed .invalidState)

/-- The object and its loop in the last of `runs` runs, with at most `left` blocks to go. -/
structure Remaining (retries : Nat) (outcomes : Nat → Nat → AttemptOutcome)
    (before : List Milestone) (first runs left : Nat) (r : BRURetry U D K) : Prop where
  current : r.runs = runs
  outstanding : SingleOutstanding r
  consistent : Consistent r
  loop : ∃ l, AttemptLoop.Sound retries outcomes first l ∧
    Simulates retries outcomes before r l ∧
      6 * AttemptLoop.totalAttempts retries outcomes first runs +
        (dispatched r.targetQueue).length ≤ left + l.steps

section Step

variable {retries : Nat} {outcomes : Nat → Nat → AttemptOutcome} {before : List Milestone}
  {first : Nat} {r r' : BRURetry U D K} {l : AttemptLoop} {e : Event U D K}

omit [DecidableEq U] [NSTimeInterval D] in
/-- A run that terminates with the result of attempt `n + 1`. -/
theorem Simulates.terminated (h : Simulates retries outcomes before r l) (hs : l.stage ≠ .idle)
    {n : Nat} {success : Bool} {error : Option NSError}
    (hresult : (l.outcome outcomes n).result = ⟨success, error⟩)
    {rest : List (RetrySyncBlock D)}
    (hpieces : BRURetry.pieces { r with syncQueue := rest } = ([], [], [])) :
    Simulates retries outcomes before
      (BRURetry.terminated success error { r with syncQueue := rest })
      (l.advance .idle [.resolve (l.runs - 1) (l.outcome outcomes n).result]) := by
  have hrunning : r.state ≠ .idle := by
    rw [h.state]
    exact fun hidle => hs (AttemptLoop.Stage.state_eq_idle.mp hidle)
  have hnot : r.state ≠ .activeCancelling := by
    rw [h.state]
    cases l.stage <;> simp [AttemptLoop.Stage.state]
  refine
    { runs := ?_, milestones := ?_, state := ?_, attempt := ?_, deferred := ?_, pieces := ?_ }
  · simp [BRURetry.terminated, h.runs, AttemptLoop.advance]
  · have hdef := h.deferred hrunning
    simp [BRURetry.terminated, hdef, finalResult, hnot, h.milestones, AttemptLoop.advance,
      hresult]
    rfl
  · simp [BRURetry.terminated, AttemptLoop.advance, AttemptLoop.Stage.state]
  · simp [BRURetry.terminated, AttemptLoop.advance, AttemptLoop.Stage.attempt]
  · simp [BRURetry.terminated]
  · refine ⟨r.currentDelay, ?_⟩
    show _ = (([], [], []) : List (RetryTargetBlock D K) × List Nat × List (RetrySyncBlock D))
    rw [← hpieces]
    simp only [BRURetry.pieces, BRURetry.terminated, resolve_targetQueue,
      resolve_continuations, resolve_syncQueue]

omit [DecidableEq U] [ToString U] [NSTimeInterval D] in
/-- A start of an idle object begins a run. -/
theorem Simulates.begun (h : Simulates retries outcomes before r l) (hidle : l.stage = .idle)
    (hattempt : r.attempt = 0) (uuid : U) (completion : Option K) :
    Simulates retries outcomes before
      (((r.begun uuid).withCompletion completion).record (.start .idle (some uuid)))
      { l with
        runs := l.runs + 1
        stage := .queued 0
        milestones := l.milestones ++ [.performAction 1] } := by
  obtain ⟨nextDelay, hpieces⟩ := h.pieces
  rw [hidle] at hpieces
  refine
    { runs := ?_, milestones := ?_, state := ?_, attempt := ?_, deferred := ?_, pieces := ?_ }
  · simp [record, BRURetry.begun, h.runs]
  · rw [record, milestones_append, milestones_withCompletion, BRURetry.begun, milestones_append,
      h.milestones, hattempt, List.append_assoc before]
    exact List.append_nil _
  · simp [record, BRURetry.begun, AttemptLoop.Stage.state]
  · simp [record, BRURetry.begun, hattempt, AttemptLoop.Stage.attempt]
  · simp [record, BRURetry.begun, h.runs]
  · refine ⟨nextDelay, Simulates.pieces_of_target hpieces rfl ?_ ?_ ?_⟩
    · simp [record, BRURetry.begun, hattempt]
    · simp [record, BRURetry.begun]
    · simp [record, BRURetry.begun]

omit [DecidableEq U] [ToString U] [NSTimeInterval D] in
/-- The next attempt, while the counter does not overflow. -/
theorem Simulates.resumed (h : Simulates retries outcomes before r l) {n : Nat}
    (hstage : l.stage = .waiting n) (hn : n + 1 < 2 ^ 64) :
    Simulates retries outcomes before r.resumed
      (l.advance (.queued n) [.performAction (n + 1)]) := by
  have hattempt : r.attempt = n := h.attempt.trans (by rw [hstage]; rfl)
  have hnext : (r.attempt + 1) % 2 ^ 64 = n + 1 := by
    rw [hattempt]
    exact Nat.mod_eq_of_lt hn
  obtain ⟨nextDelay, hpieces⟩ := h.pieces
  rw [hstage] at hpieces
  refine h.advance hstage (by simp) rfl ?_ rfl hnext rfl ?_
  · rw [BRURetry.resumed, milestones_append, hnext]
    rfl
  · rw [BRURetry.resumed, hnext]
    exact ⟨nextDelay, Simulates.pieces_of_target hpieces rfl rfl rfl rfl⟩

/-- One step of the object. -/
theorem step_simulates (hretries : retries < 2 ^ 64) (hout : SingleOutstanding r)
    (hcons : Consistent r) (hbefore : AttemptLoop.ordinal before = 0)
    (hsound : AttemptLoop.Sound retries outcomes first l)
    (h : Simulates retries outcomes before r l) (hfollows : Follows retries outcomes r e)
    (hstep : step r e = .ok r') : Keeps retries outcomes before r' e l := by
  -- a block that is no work of an attempt leaves the loop where it is
  have hkeep (hwork : e.isWork = false) (hsame : Simulates retries outcomes before r' l) :
      Keeps retries outcomes before r' e l := ⟨l, Or.inl rfl, by rw [hwork]; rfl, hsame⟩
  have hordinal : AttemptLoop.ordinal (milestones r.log) = l.stage.attempt := by
    rw [h.milestones, AttemptLoop.ordinal_append, hbefore]
    exact hsound.ordinal
  cases step_transition hstep with
  | @startIdle uuid completion hs =>
    have hidle := AttemptLoop.Stage.state_eq_idle.mp (h.state.symm.trans hs)
    exact ⟨_, Or.inr (.begin hidle), rfl, h.begun hidle (hcons.idle hs).1 uuid completion⟩
  | @startJoin uuid completion hs =>
    refine hkeep rfl (h.congr ?_ ?_ ?_ ?_ ?_ ?_)
    · simp [record]
    · rw [record, milestones_append, milestones_withCompletion]
      exact List.append_nil _
    · simp [record]
    · simp [record]
    · simp [record]
    · simp [record, BRURetry.pieces]
  | startRestore hs =>
    rw [h.state] at hs
    cases hstage : l.stage <;> simp [hstage, AttemptLoop.Stage.state] at hs
  | cancelIgnored _ =>
    exact hkeep rfl (h.congr rfl ((milestones_append _ _).trans (List.append_nil _)) rfl rfl
      rfl rfl)
  | cancelDelay hid _ => exact absurd hid hfollows
  | cancelWaiting hid _ _ => exact absurd hid hfollows
  | @runAction attempt rest hq =>
    obtain ⟨n, hstage, hn, hnone⟩ := h.of_action hq
    refine ⟨_, Or.inr (.act hstage), rfl, h.advance hstage (by simp) rfl ?_ ?_ ?_ rfl ?_⟩
    · exact (List.append_nil _).symm
    · exact h.state.trans (by rw [hstage]; rfl)
    · exact h.attempt.trans (by rw [hstage]; rfl)
    · rw [hn]
      exact ⟨r.currentDelay, Simulates.pieces_of_uncalled hnone rfl rfl rfl⟩
  | @continuation attempt result hmem =>
    obtain ⟨n, hstage, hn, hnone⟩ := h.of_uncalled hmem
    have hresult : result = (l.outcome outcomes n).report := by
      rw [Follows, hordinal, hstage, h.runs] at hfollows
      exact hfollows
    refine ⟨_, Or.inr (.report hstage), rfl,
      h.advance hstage (by simp) rfl ?_ ?_ ?_ rfl ?_⟩
    · rw [milestones_append, hn, hresult]
      rfl
    · exact h.state.trans (by rw [hstage]; rfl)
    · exact h.attempt.trans (by rw [hstage]; rfl)
    · rw [hn] at hnone
      rw [hresult, hn]
      exact ⟨r.currentDelay, Simulates.pieces_of_sync hnone rfl rfl rfl⟩
  | @askPolicy attempt result rest hq hfailure herror hs hstatus =>
    obtain ⟨n, hstage, hn, hresult, hnone⟩ := h.of_report hq
    rw [hresult] at hfailure hstatus
    have htransient := AttemptOutcome.isTransient_of_report hfailure hstatus
    refine ⟨_, Or.inr (.ask hstage htransient), rfl,
      h.advance hstage (by simp) rfl ?_ ?_ ?_ rfl ?_⟩
    · exact (List.append_nil _).symm
    · exact h.state.trans (by rw [hstage]; rfl)
    · exact h.attempt.trans (by rw [hstage]; rfl)
    · rw [hn, hresult, (AttemptOutcome.report_of_transient htransient).1]
      exact ⟨r.currentDelay, Simulates.pieces_of_target hnone rfl rfl rfl rfl⟩
  | @finish attempt result rest hq hconsistent hfinal =>
    obtain ⟨n, hstage, hn, hresult, hnone⟩ := h.of_report hq
    have hrun : l.stage ≠ .idle := by rw [hstage]; simp
    have htransient : (l.outcome outcomes n).isTransient = false := by
      rw [hresult, h.state, hstage] at hfinal
      cases houtcome : l.outcome outcomes n with
      | transientFailure error =>
        rw [houtcome] at hfinal
        simp [AttemptOutcome.report, AttemptLoop.Stage.state] at hfinal
      | _ => rfl
    refine ⟨_, Or.inr (.finish hstage htransient), rfl, h.terminated hrun ?_ hnone⟩
    rw [AttemptOutcome.report_result, hresult]
  | @runPolicy response left success error attempt nextDelay rest hq =>
    obtain ⟨n, hstage, hsuccess, hn, herror, hnone⟩ := h.of_policy hq
    have hanswer := hfollows _ _ _ _ _ hq
    rw [policy_eq_response, Prod.mk.injEq] at hanswer
    refine ⟨_, Or.inr (.answer hstage), rfl,
      h.advance hstage (by simp) rfl ?_ ?_ ?_ rfl ?_⟩
    · rw [milestones_append, hn, herror, hanswer.1, hn]
      rfl
    · exact h.state.trans (by rw [hstage]; rfl)
    · exact h.attempt.trans (by rw [hstage]; rfl)
    · rw [hsuccess, herror, hanswer.1, hn]
      exact ⟨left, Simulates.pieces_of_sync hnone rfl rfl rfl⟩
  | @policyStop success error response nextDelay rest hq hterm =>
    obtain ⟨n, hstage, hsuccess, herror, hresponse, hnone⟩ := h.of_answer hq
    have hallowed := hsound.allowed
    rw [hstage] at hallowed
    have hmax : retries ≤ n + 1 := by
      rw [Terminates, hsuccess, h.state, hstage, hresponse] at hterm
      simp only [AttemptLoop.Stage.state, AttemptLoop.response] at hterm
      by_contra hnot
      simp [hnot] at hterm
    refine ⟨_, Or.inr (.stop hstage hmax), rfl,
      h.terminated (by rw [hstage]; simp) ?_ hnone⟩
    rw [hsuccess, herror]
    exact (AttemptOutcome.report_of_transient hallowed).2
  | @policyRetry success error response nextDelay rest hq hterm htimer =>
    obtain ⟨n, hstage, hsuccess, herror, hresponse, hnone⟩ := h.of_answer hq
    have hmax : n + 1 < retries := by
      by_contra hnot
      apply hterm
      rw [hresponse, AttemptLoop.response, if_pos (by omega)]
      exact Or.inr (Or.inr rfl)
    refine ⟨_, Or.inr (.retry hstage hmax), rfl,
      h.advance hstage (by simp) rfl ?_ rfl ?_ rfl ?_⟩
    · exact milestones_append _ _
    · exact h.attempt.trans (by rw [hstage]; rfl)
    · exact ⟨nextDelay, hnone⟩
  | @timerCallback timer htimer hid =>
    have hdelay := (hout.delay_of_timer (by rw [htimer]; simp)).1
    rw [h.state] at hdelay
    obtain ⟨n, hstage⟩ := AttemptLoop.Stage.exists_of_state_eq_delay hdelay
    have hallowed := hsound.allowed
    rw [hstage] at hallowed
    have hlt : n < retries := hallowed
    exact ⟨_, Or.inr (.resume hstage), rfl, h.resumed hstage (by omega)⟩
  | @runDeferred run deferred blocks hrun =>
    refine hkeep rfl (h.congr rfl rfl rfl rfl rfl ?_)
    simp [BRURetry.pieces, RetryTargetBlock.isAction, RetryTargetBlock.isPolicy]
  | runCompletion hq =>
    refine hkeep rfl (h.congr rfl ?_ rfl rfl rfl ?_)
    · exact (milestones_append _ _).trans (List.append_nil _)
    · simp [BRURetry.pieces, hq, RetryTargetBlock.isAction, RetryTargetBlock.isPolicy]

omit [DecidableEq U] [ToString U] [NSTimeInterval D] in
/-- The relation with the loop that begins at an idle object. -/
theorem simulates_of_idle (hout : SingleOutstanding r) (hcons : Consistent r)
    (hs : r.state = .idle) :
    Simulates retries outcomes (BRURetry.milestones r.log) r (AttemptLoop.init r.runs) where
  runs := rfl
  milestones := (List.append_nil _).symm
  state := hs
  attempt := (hcons.idle hs).1
  deferred h := absurd hs h
  pieces := by
    have hnone := (hout.idle hs).1
    rw [attemptWork_eq] at hnone
    refine ⟨r.currentDelay, ?_⟩
    show r.pieces = ([], [], [])
    rw [BRURetry.pieces, List.eq_nil_of_length_eq_zero (show r.continuations.length = 0 by omega),
      List.eq_nil_of_length_eq_zero (show r.syncQueue.length = 0 by omega)]
    have hactions := List.countP_eq_zero.mp
      (show r.targetQueue.countP RetryTargetBlock.isAction = 0 by omega)
    have hpolicies := List.countP_eq_zero.mp
      (show r.targetQueue.countP RetryTargetBlock.isPolicy = 0 by omega)
    have hfilter : (r.targetQueue.filter fun block => block.isAction || block.isPolicy) = [] := by
      apply List.filter_eq_nil_iff.mpr
      intro block hmem
      simp [hactions block hmem, hpolicies block hmem]
    rw [hfilter]

omit [DecidableEq U] [ToString U] [NSTimeInterval D] in
/-- A run that was resolved leaves no attempt behind. -/
theorem ordinal_resolve {run : Nat} (hdef : r.deferred = some run)
    (log : List (RetryObservation U D K)) (result : BRURetryResult) :
    AttemptLoop.ordinal (milestones
      (log ++ (r.deferred.map fun run => .resolve run result).toList)) = 0 := by
  rw [hdef, milestones_append, AttemptLoop.ordinal_append]
  rfl

omit [DecidableEq U] [NSTimeInterval D] in
/-- A block on the synchronisation queue that ends the run resolves it. -/
theorem ordinal_terminated (hout : SingleOutstanding r) (hcons : Consistent r)
    {block : RetrySyncBlock D} {rest : List (RetrySyncBlock D)}
    (hq : r.syncQueue = block :: rest) (success : Bool) (error : Option NSError) :
    AttemptLoop.ordinal
      (milestones (terminated success error { r with syncQueue := rest }).log) = 0 := by
  have hactive := (hout.of_syncQueue hq).1
  have hrunning : r.state ≠ .idle := by
    rcases hactive with hs | hs <;> rw [hs] <;> simp
  obtain ⟨run, hdef⟩ := Option.isSome_iff_exists.mp (hcons.running hrunning).2
  rw [BRURetry.terminated, resolve_log]
  exact ordinal_resolve hdef _ _

/-- An idle object has made no attempt since its last run. -/
theorem step_idle_ordinal (hout : SingleOutstanding r) (hcons : Consistent r)
    (h : r.state = .idle → AttemptLoop.ordinal (milestones r.log) = 0)
    (hstep : step r e = .ok r') (hs' : r'.state = .idle) :
    AttemptLoop.ordinal (milestones r'.log) = 0 := by
  cases step_transition hstep with
  | startIdle _ => simp [record, begun] at hs'
  | startJoin hs =>
    have hidle : r.state = .idle := by simpa [record] using hs'
    rw [hidle] at hs
    simp at hs
  | startRestore _ => simp [record] at hs'
  | cancelIgnored _ =>
    rw [record, milestones_append, AttemptLoop.ordinal_append, h hs']
    rfl
  | cancelDelay _ hs =>
    obtain ⟨run, hdef⟩ := Option.isSome_iff_exists.mp (hcons.running (by rw [hs]; simp)).2
    rw [record, milestones_append, AttemptLoop.ordinal_append, released, resolve_log,
      ordinal_resolve hdef]
    rfl
  | cancelWaiting _ _ _ => cases hs'
  | runAction _ => exact h hs'
  | continuation _ =>
    rw [milestones_append, AttemptLoop.ordinal_append, h hs']
    rfl
  | askPolicy _ _ _ _ _ => exact h hs'
  | finish hq _ _ => exact ordinal_terminated hout hcons hq _ _
  | runPolicy _ =>
    rw [milestones_append, AttemptLoop.ordinal_append, h hs']
    rfl
  | policyStop hq _ => exact ordinal_terminated hout hcons hq _ _
  | policyRetry _ _ _ => cases hs'
  | timerCallback _ _ => cases hs'
  | runDeferred _ => exact h hs'
  | runCompletion _ =>
    rw [milestones_append, AttemptLoop.ordinal_append, h hs']
    rfl

theorem idle_ordinal_of_reachable {delay : D}
    (h : Reachable step (initWithActionBlock delay) r) (hs : r.state = .idle) :
    AttemptLoop.ordinal (milestones r.log) = 0 := by
  refine h.invariant
    (I := fun r => r.state = .idle → AttemptLoop.ordinal (milestones r.log) = 0)
    (fun _ => rfl) ?_ hs
  intro r e r' hr hinv hstep
  obtain ⟨hout, hcons⟩ := invariants_of_reachable hr
  exact step_idle_ordinal hout hcons hinv hstep

/-- A run of the object is a run of the loop. -/
theorem run_simulates (hretries : retries < 2 ^ 64) (hbefore : AttemptLoop.ordinal before = 0)
    {events : List (Event U D K)} (hout : SingleOutstanding r) (hcons : Consistent r)
    (hsound : AttemptLoop.Sound retries outcomes first l)
    (h : Simulates retries outcomes before r l)
    (hfollows : AllSteps step (Follows retries outcomes) r events)
    (hrun : run step r events = .ok r') :
    ∃ l', AttemptLoop.Sound retries outcomes first l' ∧
      l'.steps = l.steps + events.countP Event.isWork ∧
      Simulates retries outcomes before r' l' := by
  induction events generalizing r l with
  | nil =>
    obtain rfl : r = r' := by simpa using hrun
    exact ⟨l, hsound, rfl, h⟩
  | cons e events ih =>
    obtain ⟨m, hm, hrest⟩ := run_cons_eq_ok.mp hrun
    obtain ⟨hfollow, hfollows⟩ := hfollows
    obtain ⟨l₁, hmove, hsteps, h₁⟩ :=
      step_simulates hretries hout hcons hbefore hsound h hfollow hm
    have hsound₁ : AttemptLoop.Sound retries outcomes first l₁ := by
      rcases hmove with rfl | hmove
      · exact hsound
      · exact AttemptLoop.step_sound hsound hmove
    obtain ⟨l', hsound', hsteps', h'⟩ := ih (step_singleOutstanding hout hm)
      (step_consistent hout hcons hm) hsound₁ h₁ (hfollows m hm) hrest
    refine ⟨l', hsound', ?_, h'⟩
    rw [hsteps', hsteps, List.countP_cons]
    omega

/-! ## A run goes on -/

omit [DecidableEq U] in
/-- A run that terminates passes `checkInvariants`, unless the delay of the object is not
equal to itself. -/
theorem invariantsHold_terminated (htimer : r.timer = none) (success : Bool)
    (error : Option NSError) : (r.terminated success error).invariantsHold =
      NSTimeInterval.doubleEquals r.delay r.delay := by
  simp [invariantsHold, BRURetry.terminated, htimer]

omit [DecidableEq U] [ToString U] in
theorem checkInvariants_cases (r : BRURetry U D K) :
    (do checkInvariants r; pure r : Exec Assertion (BRURetry U D K)) =
      if r.invariantsHold then .ok r else .error (.failed .invalidState) := by
  cases hinv : r.invariantsHold <;> simp [checkInvariants, assertThat, hinv]

omit [DecidableEq U] in
/-- A result is handled.  Only a delay that is not equal to itself can stop it. -/
theorem handleResult_goes_on (htimer : r.timer = none) (hattempt : 0 < r.attempt)
    (hid : r.identifier.isSome) (hdef : r.deferred.isSome) (success : Bool)
    (error : Option NSError) (response : BRURetryPolicyResponse) (nextDelay : D) :
    (∃ r', handleResult success error response nextDelay r = .ok r') ∨
      NSTimeInterval.doubleEquals r.delay r.delay = false ∧
        handleResult success error response nextDelay r = .error (.failed .invalidState) := by
  by_cases hterm : Terminates success response r
  · rw [(handleResult_eq ..).1 hterm, checkInvariants_cases, invariantsHold_terminated htimer]
    cases hself : NSTimeInterval.doubleEquals r.delay r.delay with
    | true => exact Or.inl ⟨_, rfl⟩
    | false => exact Or.inr ⟨rfl, rfl⟩
  · left
    have hholds : (r.scheduled nextDelay).invariantsHold = true := by
      simp [invariantsHold, scheduled, hattempt, hid, hdef]
    have hassert : (assertThat (r.timer = none) .alreadyScheduled : Exec Assertion Unit) =
        .ok () := assertThat_eq_ok.mpr htimer
    rw [(handleResult_eq ..).2 hterm, hassert]
    refine ⟨r.scheduled nextDelay, ?_⟩
    show (do checkInvariants (r.scheduled nextDelay); pure (r.scheduled nextDelay)) = _
    rw [checkInvariants_cases, hholds]
    rfl

/-- A block on `syncQueue` runs. -/
theorem runSync_goes_on (hout : SingleOutstanding r) (hcons : Consistent r)
    (h : Simulates retries outcomes before r l) {block : RetrySyncBlock D}
    {rest : List (RetrySyncBlock D)} (hq : r.syncQueue = block :: rest) :
    (∃ r', step r .runSync = .ok r') ∨ r.StoppedByDelay := by
  obtain ⟨hactive, htimer, _⟩ := hout.of_syncQueue hq
  obtain ⟨hid, hdef⟩ := hcons.running (by rcases hactive with hs | hs <;> rw [hs] <;> simp)
  cases block with
  | continuation attempt result =>
    obtain ⟨n, hstage, _, hresult, _⟩ := h.of_report hq
    have hattempt : r.attempt = n + 1 := h.attempt.trans (by rw [hstage]; rfl)
    have hconsistent : result.success = result.error.isNone := by
      rw [hresult]
      cases l.outcome outcomes n <;> rfl
    have hassert : (assertThat (result.success = result.error.isNone) .inconsistentResults :
        Exec Assertion Unit) = .ok () := assertThat_eq_ok.mpr hconsistent
    have hgoes := handleResult_goes_on (r := { r with syncQueue := rest }) htimer
      (show 0 < r.attempt by omega) hid hdef result.success result.error .stop r.currentDelay
    simp only [StoppedByDelay, step, hq, processContinuation, hassert]
    cases hfinal : result.success || r.state == .activeCancelling || result.status == .final with
    | false => exact Or.inl ⟨_, rfl⟩
    | true => exact hgoes
  | policyResult success error response nextDelay =>
    obtain ⟨n, hstage, _⟩ := h.of_answer hq
    have hattempt : r.attempt = n + 1 := h.attempt.trans (by rw [hstage]; rfl)
    have hgoes := handleResult_goes_on (r := { r with syncQueue := rest }) htimer
      (show 0 < r.attempt by omega) hid hdef success error response nextDelay
    simpa only [StoppedByDelay, step, hq] using hgoes

variable (retries outcomes) in
/-- A block on `targetQueue` runs. -/
theorem target_goes_on {block : RetryTargetBlock D K} {rest : List (RetryTargetBlock D K)}
    (hq : r.targetQueue = block :: rest) :
    ∃ e : Event U D K, (e.isWork = true ∨ e.isCompletion = true) ∧
      Follows retries outcomes r e ∧ ∃ r', step r e = .ok r' := by
  cases block with
  | action attempt => exact ⟨.runAction, Or.inl rfl, trivial, _, by rw [step, hq]; rfl⟩
  | policy success error attempt nextDelay =>
    refine ⟨.runPolicy (AttemptLoop.response retries attempt) nextDelay, Or.inl rfl, ?_, _,
      by rw [step, hq]; rfl⟩
    intro success' error' attempt' nextDelay' rest' hq'
    rw [hq] at hq'
    injection hq' with hhead _
    injection hhead with _ _ hattempt hdelay
    rw [policy_eq_response, ← hattempt, ← hdelay]
  | completion run block =>
    exact ⟨.runCompletion, Or.inr rfl, trivial, _, by rw [step, hq]; rfl⟩

/-- A continuation block that was not called can be called. -/
theorem continuation_goes_on {attempt : Nat} (hmem : attempt ∈ r.continuations)
    (result : ContinuationResult) : ∃ r', step r (.continuation attempt result) = .ok r' :=
  ⟨_, by rw [step, enabledIf, if_pos hmem]; rfl⟩

/-- The timer calls back. -/
theorem timer_goes_on (hout : SingleOutstanding r) (hcons : Consistent r)
    (hs : r.state = .delay) : ∃ r', step r .timerCallback = .ok r' := by
  obtain ⟨timer, htimer⟩ := Option.isSome_iff_exists.mp (hout.delay hs).2
  have hsome := (hcons.running (by rw [hs]; simp)).1
  have hid : isEqual timer.identifier r.identifier = true := by
    rw [hcons.timer timer htimer]
    exact isEqual_iff.mpr ⟨rfl, hsome⟩
  exact ⟨_, by simp only [step, htimer, timerCallback, hid, performAction]; rfl⟩

/-- While a run is not over, some of its work can be done, or a then-block that is queued
before it can be called. -/
theorem goes_on (hout : SingleOutstanding r) (hcons : Consistent r)
    (h : Simulates retries outcomes before r l) (hs : r.state ≠ .idle) :
    (∃ e : Event U D K, (e.isWork = true ∨ e.isCompletion = true) ∧
      Follows retries outcomes r e ∧ ∃ r', step r e = .ok r') ∨ r.StoppedByDelay := by
  by_cases hdelay : r.state = .delay
  · exact Or.inl ⟨.timerCallback, Or.inl rfl, trivial, timer_goes_on hout hcons hdelay⟩
  have hone : r.attemptWork = 1 := by
    refine (hout.active ?_).1
    cases hstate : r.state <;> simp_all
  rw [attemptWork_eq] at hone
  cases htarget : r.targetQueue with
  | cons block rest => exact Or.inl (target_goes_on retries outcomes htarget)
  | nil =>
    cases hsync : r.syncQueue with
    | cons block rest =>
      exact (runSync_goes_on hout hcons h hsync).imp_left fun hok =>
        ⟨.runSync, Or.inl rfl, trivial, hok⟩
    | nil =>
      rw [htarget, hsync] at hone
      obtain ⟨attempt, hmem⟩ := List.exists_mem_of_length_pos
        (show 0 < r.continuations.length by simp at hone; omega)
      exact Or.inl ⟨.continuation attempt _, Or.inl rfl, rfl, continuation_goes_on hmem _⟩

/-! ## A run ends -/

/-- Of the then-blocks on `targetQueue`, work leaves all and a call takes one. -/
theorem step_dispatched (hgoes : e.isWork = true ∨ e.isCompletion = true)
    (hstep : step r e = .ok r') : r'.runs = r.runs ∧ (dispatched r.targetQueue).length =
      (dispatched r'.targetQueue).length + (if e.isWork then 0 else 1) := by
  cases step_transition hstep with
  | startIdle | startJoin | startRestore | cancelIgnored | cancelDelay | cancelWaiting
  | runDeferred => simp [Event.isWork, Event.isCompletion] at hgoes
  | runAction hq => simp [hq, dispatched, Event.isWork]
  | continuation hmem => simp [Event.isWork]
  | askPolicy hq hfailure herror hs hstatus => simp [dispatched, Event.isWork]
  | finish hq hconsistent hfinal => simp [BRURetry.terminated, Event.isWork]
  | runPolicy hq => simp [hq, dispatched, Event.isWork]
  | policyStop hq hterm => simp [BRURetry.terminated, Event.isWork]
  | policyRetry hq hterm htimer => simp [scheduled, Event.isWork]
  | timerCallback htimer hid => simp [resumed, dispatched, Event.isWork]
  | runCompletion hq => simp [hq, dispatched, Event.isWork]

/-- A run goes on to its end. -/
theorem run_ends (hretries : retries < 2 ^ 64) (hbefore : AttemptLoop.ordinal before = 0)
    (hout : SingleOutstanding r) (hcons : Consistent r)
    (hsound : AttemptLoop.Sound retries outcomes first l)
    (h : Simulates retries outcomes before r l) :
    ∃ (more : List (Event U D K)) (r' : BRURetry U D K),
      AllSteps step (fun r e => (e.isWork = true ∨ e.isCompletion = true) ∧
        Follows retries outcomes r e) r more ∧
      run step r more = .ok r' ∧ r'.runs = r.runs ∧ (r'.state = .idle ∨ r'.StoppedByDelay) := by
  have hlast : ∃ (more : List (Event U D K)) (r' : BRURetry U D K),
      AllSteps step (fun r e => (e.isWork = true ∨ e.isCompletion = true) ∧
        Follows retries outcomes r e) r more ∧ run step r more = .ok r' ∧
      (r'.runs = r.runs ∧ (r'.state = .idle ∨ r'.StoppedByDelay)) := by
    refine exists_run_to (I := Remaining retries outcomes before first r.runs) ?_
      ⟨rfl, hout, hcons, l, hsound, h, Nat.le_add_right _ _⟩
    rintro left m ⟨hruns, hout, hcons, l, hsound, h, hleft⟩ hnot
    have hidle : m.state ≠ .idle := fun hidle => hnot ⟨hruns, Or.inl hidle⟩
    rcases goes_on hout hcons h hidle with ⟨e, hgoes, hfollow, m', hstep⟩ | hstopped
    · obtain ⟨l', hmove, hsteps, h'⟩ :=
        step_simulates hretries hout hcons hbefore hsound h hfollow hstep
      have hsound' : AttemptLoop.Sound retries outcomes first l' := by
        rcases hmove with rfl | hmove
        · exact hsound
        · exact AttemptLoop.step_sound hsound hmove
      obtain ⟨hruns', hqueue⟩ := step_dispatched hgoes hstep
      have hbudget := hsound'.budget
      rw [← h'.runs, hruns', hruns] at hbudget
      have hless : 0 < left ∧ 6 * AttemptLoop.totalAttempts retries outcomes first r.runs +
          (dispatched m'.targetQueue).length ≤ left - 1 + l'.steps := by
        cases hwork : e.isWork with
        | true =>
          rw [hwork, if_pos rfl] at hsteps hqueue
          omega
        | false =>
          rw [hwork, if_neg Bool.false_ne_true] at hsteps hqueue
          omega
      exact ⟨e, m', left - 1, ⟨hgoes, hfollow⟩, hstep, by omega, hruns'.trans hruns,
        step_singleOutstanding hout hstep, step_consistent hout hcons hstep, l', hsound', h',
        hless.2⟩
    · exact absurd ⟨hruns, Or.inr hstopped⟩ hnot
  obtain ⟨more, r', hall, hrun, hruns, hend⟩ := hlast
  exact ⟨more, r', hall, hrun, hruns, hend⟩

/-! ## Only so many then-blocks -/

omit [DecidableEq U] [ToString U] [NSTimeInterval D] in
/-- What the completion block of a start adds to the log. -/
theorem accounts_withCompletion (completion : Option K) (r : BRURetry U D K) :
    completions (r.withCompletion completion).log = completions r.log ∧
      (registrations (r.withCompletion completion).log).length ≤
        (registrations r.log).length + 1 := by
  cases completion with
  | none => exact ⟨rfl, Nat.le_succ _⟩
  | some block =>
    cases hdef : r.deferred with
    | none => simp [withCompletion, thenOnDeferred, hdef]
    | some run => simp [withCompletion, thenOnDeferred, hdef, completions, registrations]

/-- A step calls one then-block or none, and only a start registers one. -/
theorem step_accounts (hstep : step r e = .ok r') :
    (completions r'.log).length =
        (completions r.log).length + (if e.isCompletion then 1 else 0) ∧
      (registrations r'.log).length ≤
        (registrations r.log).length + (if e.isStart then 1 else 0) := by
  have hnone (o : RetryObservation U D K) (ho : Unaccounted o) :
      (completions (r.log ++ [o])).length = (completions r.log).length ∧
        (registrations (r.log ++ [o])).length ≤ (registrations r.log).length := by
    rw [completions_append, registrations_append, ho.1, ho.2.2, List.append_nil, List.append_nil]
    exact ⟨rfl, Nat.le_refl _⟩
  -- a start that leaves `m` to its completion block, and is noted then
  have hstart (m : BRURetry U D K) (completion : Option K) (o : RetryObservation U D K)
      (ho : Unaccounted o) (hm : completions m.log = completions r.log ∧
        registrations m.log = registrations r.log) :
      (completions ((m.withCompletion completion).record o).log).length =
          (completions r.log).length ∧
        (registrations ((m.withCompletion completion).record o).log).length ≤
          (registrations r.log).length + 1 := by
    obtain ⟨hcalled, hjoined⟩ := accounts_withCompletion completion m
    rw [record, completions_append, registrations_append, ho.1, ho.2.2, List.append_nil,
      List.append_nil, hcalled, hm.1]
    rw [hm.2] at hjoined
    exact ⟨rfl, hjoined⟩
  have hsilent (run : Option Nat) (log : List (RetryObservation U D K))
      (result : BRURetryResult) : completions
        (log ++ (run.map fun run => .resolve run result).toList) = completions log ∧
      registrations (log ++ (run.map fun run => .resolve run result).toList) =
        registrations log := by
    cases run <;> simp [completions, registrations]
  cases step_transition hstep with
  | @startIdle uuid completion hs =>
    refine hstart (r.begun uuid) completion _ ⟨rfl, rfl, rfl⟩ ?_
    simp [begun, completions, registrations]
  | startJoin hs => exact hstart r _ _ ⟨rfl, rfl, rfl⟩ ⟨rfl, rfl⟩
  | startRestore hs =>
    exact hstart { r with state := .activeWaiting } _ _ ⟨rfl, rfl, rfl⟩ ⟨rfl, rfl⟩
  | cancelIgnored _ => exact hnone _ ⟨rfl, rfl, rfl⟩
  | cancelDelay _ _ =>
    cases htimer : r.timer <;> cases hdef : r.deferred <;>
      simp [record, released, suspendTimer, htimer, hdef, completions, registrations,
        Event.isCompletion]
  | cancelWaiting _ _ _ => exact hnone _ ⟨rfl, rfl, rfl⟩
  | runAction _ => exact ⟨rfl, Nat.le_refl _⟩
  | continuation _ => exact hnone _ ⟨rfl, rfl, rfl⟩
  | askPolicy _ _ _ _ _ => exact ⟨rfl, Nat.le_refl _⟩
  | finish _ _ _ =>
    rw [BRURetry.terminated, resolve_log, (hsilent _ _ _).1, (hsilent _ _ _).2]
    exact ⟨rfl, Nat.le_refl _⟩
  | runPolicy _ => exact hnone _ ⟨rfl, rfl, rfl⟩
  | policyStop _ _ =>
    rw [BRURetry.terminated, resolve_log, (hsilent _ _ _).1, (hsilent _ _ _).2]
    exact ⟨rfl, Nat.le_refl _⟩
  | policyRetry _ _ _ => exact hnone _ ⟨rfl, rfl, rfl⟩
  | timerCallback _ _ => exact hnone _ ⟨rfl, rfl, rfl⟩
  | runDeferred _ => exact ⟨rfl, Nat.le_refl _⟩
  | runCompletion _ => simp [completions, registrations, Event.isCompletion, Event.isStart]

/-- The then-blocks that a run calls were registered before it or by its starts. -/
theorem completions_bounded {delay : D}
    (hreach : Reachable step (initWithActionBlock delay) r) {events : List (Event U D K)}
    (hrun : run step r events = .ok r') :
    events.countP Event.isCompletion + (completions r.log).length ≤
      (registrations r.log).length + events.countP Event.isStart := by
  have hcounts : events.countP Event.isCompletion + (completions r.log).length =
        (completions r'.log).length ∧
      (registrations r'.log).length ≤
        (registrations r.log).length + events.countP Event.isStart := by
    induction events generalizing r with
    | nil =>
      obtain rfl : r = r' := by simpa using hrun
      simp
    | cons e events ih =>
      obtain ⟨m, hm, hrest⟩ := run_cons_eq_ok.mp hrun
      obtain ⟨hcalled, hjoined⟩ := ih (hreach.next hm) hrest
      obtain ⟨hcalled', hjoined'⟩ := step_accounts hm
      rw [List.countP_cons, List.countP_cons]
      omega
  have hacc := accounted_of_reachable (hreach.trans ⟨events, hrun⟩)
  have hle : (completions r'.log).length ≤ (registrations r'.log).length := hacc.completions_le
  omega

end Step

/-! ## The contract -/

/-- What at most `retries` attempts a run means, for an object that was idle in `r₀` and has
come to `r` by `events`. -/
structure MaxRetriesContract (retries : Nat) (outcomes : Nat → Nat → AttemptOutcome)
    (r₀ : BRURetry U D K) (events : List (Event U D K)) (r : BRURetry U D K) : Prop where
  /-- When no run is under way, each run that began did all of what it had to do. -/
  ended : r.state = .idle → milestones r.log =
    milestones r₀.log ++ AttemptLoop.finishedRuns retries outcomes r₀.runs r.runs
  /-- A run under way has done a part of it and not all, after the runs before it. -/
  underWay : r.state ≠ .idle → ∃ current rest, rest ≠ [] ∧
    current ++ rest =
      AttemptLoop.runMilestones retries (outcomes (r.runs - 1)) (r.runs - 1) ∧
    milestones r.log = milestones r₀.log ++
      (AttemptLoop.finishedRuns retries outcomes r₀.runs (r.runs - 1) ++ current)
  /-- It goes on: some of its work can be done, or a then-block that is queued before it can
  be called. -/
  goesOn : r.state ≠ .idle → (∃ e : Event U D K, (e.isWork = true ∨ e.isCompletion = true) ∧
    Follows retries outcomes r e ∧ ∃ r', step r e = .ok r') ∨ r.StoppedByDelay
  /-- Neither can be done forever. -/
  bounded : events.countP Event.isWork ≤
    6 * AttemptLoop.totalAttempts retries outcomes r₀.runs r.runs
  boundedCompletions : events.countP Event.isCompletion + (completions r₀.log).length ≤
    (registrations r₀.log).length + events.countP Event.isStart
  /-- So it comes to its end. -/
  ends : r.state ≠ .idle → ∃ (more : List (Event U D K)) (r' : BRURetry U D K),
    AllSteps step (fun r e => (e.isWork = true ∨ e.isCompletion = true) ∧
      Follows retries outcomes r e) r more ∧
    run step r more = .ok r' ∧ r'.runs = r.runs ∧ (r'.state = .idle ∨ r'.StoppedByDelay)

/-- With `BRURetryPolicyBlockWithMaxRetries`, every run that is not cancelled makes the
attempts up to the first one that succeeds, fails for good or is number `retries`.  It asks
the policy once for each transient failure, in order, and resolves with the outcome of its
last attempt.  The runs before `r₀` do not matter, whatever they did. -/
theorem max_retries {retries : Nat} (hretries : retries < 2 ^ 64)
    (outcomes : Nat → Nat → AttemptOutcome) {delay : D} {earlier events : List (Event U D K)}
    {r₀ r : BRURetry U D K} (hearlier : run step (initWithActionBlock delay) earlier = .ok r₀)
    (hidle : r₀.state = .idle) (hfollows : AllSteps step (Follows retries outcomes) r₀ events)
    (hrun : run step r₀ events = .ok r) :
    MaxRetriesContract retries outcomes r₀ events r ∧
      ∀ n, (AttemptLoop.Decides retries (outcomes n)
            (AttemptLoop.attempts retries (outcomes n)) ∧
          ∀ i, AttemptLoop.Decides retries (outcomes n) i →
            AttemptLoop.attempts retries (outcomes n) ≤ i) ∧
        AttemptLoop.performed (AttemptLoop.runMilestones retries (outcomes n) n) =
          List.range' 1 (AttemptLoop.attempts retries (outcomes n)) ∧
        AttemptLoop.policyCalls (AttemptLoop.runMilestones retries (outcomes n) n) =
          (((List.range' 1 (AttemptLoop.attempts retries (outcomes n))).filter
            fun i => (outcomes n i).isTransient).map fun i => (i, (outcomes n i).error)) ∧
        AttemptLoop.resolutions (AttemptLoop.runMilestones retries (outcomes n) n) =
          [(n, (outcomes n (AttemptLoop.attempts retries (outcomes n))).result)] := by
  have hreach₀ : Reachable step (initWithActionBlock delay) r₀ := ⟨earlier, hearlier⟩
  obtain ⟨hout₀, hcons₀⟩ := invariants_of_reachable hreach₀
  obtain ⟨hout, hcons⟩ := invariants_of_reachable (hreach₀.trans ⟨events, hrun⟩)
  have hordinal₀ := idle_ordinal_of_reachable hreach₀ hidle
  obtain ⟨l, hsound, hsteps, h⟩ := run_simulates hretries hordinal₀ hout₀ hcons₀
    (AttemptLoop.sound_init r₀.runs) (simulates_of_idle hout₀ hcons₀ hidle) hfollows hrun
  refine ⟨
    { ended := ?_, underWay := ?_, goesOn := goes_on hout hcons h, bounded := ?_
      boundedCompletions := completions_bounded hreach₀ hrun
      ends := fun _ => run_ends hretries hordinal₀ hout hcons hsound h }, ?_⟩
  · intro hs
    have hstage := AttemptLoop.Stage.state_eq_idle.mp (h.state.symm.trans hs)
    rw [h.milestones, hsound.milestones, hstage, AttemptLoop.finished_of_idle hstage, h.runs]
    exact congrArg _ (List.append_nil _)
  · intro hs
    have hstage : l.stage ≠ .idle := by
      intro hstage
      exact hs (h.state.trans (AttemptLoop.Stage.state_eq_idle.mpr hstage))
    obtain ⟨current, rest, hrest, hwhole, hcurrent⟩ := hsound.current hstage
    rw [h.milestones, h.runs]
    exact ⟨current, rest, hrest, hwhole, by rw [hcurrent]⟩
  · have hbudget := hsound.budget
    rw [hsteps] at hbudget
    rw [h.runs]
    simp only [AttemptLoop.init] at hbudget
    omega
  · intro n
    exact ⟨AttemptLoop.attempts_least, AttemptLoop.performed_runMilestones n,
      AttemptLoop.policyCalls_runMilestones n, AttemptLoop.resolutions_runMilestones n⟩

/-- A run that is cancelled while its first attempt runs. -/
def cancelledRun : List (Event Nat Nat Nat) :=
  [.start 6 none, .runAction, .cancel 6,
    .continuation 1 ⟨false, some ⟨"d", 1, []⟩, .transient⟩, .runSync]

/-- After a first run, one that fails on each attempt and then those that succeed at once. -/
def failThenSucceed : Nat → Nat → AttemptOutcome
  | 1, _ => .transientFailure ⟨"d", 1, []⟩
  | _, _ => .success .final

/-- Two attempts, the second one stopped by the policy, and a run that succeeds. -/
def twoRuns : List (Event Nat Nat Nat) :=
  [.start 7 none, .runAction, .continuation 1 ⟨false, some ⟨"d", 1, []⟩, .transient⟩,
    .runSync, .runPolicy .retry 0, .runSync, .timerCallback, .runAction,
    .continuation 2 ⟨false, some ⟨"d", 1, []⟩, .transient⟩, .runSync, .runPolicy .stop 0,
    .runSync, .start 8 none, .runAction, .continuation 1 ⟨true, none, .final⟩, .runSync]

theorem max_retries_twoRuns : ∃ r₀ r : BRURetry Nat Nat Nat,
    run step (initWithActionBlock 0) cancelledRun = .ok r₀ ∧ run step r₀ twoRuns = .ok r ∧
      milestones r.log =
        milestones r₀.log ++ AttemptLoop.finishedRuns 2 failThenSucceed 1 3 := by
  obtain ⟨r₀, r, hearlier, hidle, hrun, hs, hruns₀, hruns, hfollows⟩ :
      ∃ r₀ r : BRURetry Nat Nat Nat,
        run step (initWithActionBlock 0) cancelledRun = .ok r₀ ∧ r₀.state = .idle ∧
          run step r₀ twoRuns = .ok r ∧ r.state = .idle ∧ r₀.runs = 1 ∧ r.runs = 3 ∧
          AllSteps step (Follows 2 failThenSucceed) r₀ twoRuns := by
    refine ⟨_, _, rfl, rfl, rfl, rfl, rfl, rfl, ?_⟩
    refine .cons trivial rfl (.cons trivial rfl (.cons rfl rfl (.cons trivial rfl
      (.cons ?_ rfl (.cons trivial rfl (.cons trivial rfl (.cons trivial rfl (.cons rfl rfl
      (.cons trivial rfl (.cons ?_ rfl (.cons trivial rfl (.cons trivial rfl (.cons trivial rfl
      (.cons rfl rfl (.cons trivial rfl trivial)))))))))))))))
    · intro success error attempt nextDelay rest hq
      cases hq
      rfl
    · intro success error attempt nextDelay rest hq
      cases hq
      rfl
  have hended := (max_retries (by decide) failThenSucceed hearlier hidle hfollows hrun).1.ended hs
  rw [hruns₀, hruns] at hended
  exact ⟨r₀, r, hearlier, hrun, hended⟩

end BRURetry

end BromiumCoreUtils
