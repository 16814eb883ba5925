import BromiumCoreUtils.Retry.Outstanding

/-!
# The attempt in flight

`lastAttempt` reads off the log which attempt ran last and what its
continuation block was called with.  `InFlight` says that every piece of work
that is out belongs to that attempt, and carries what was reported for it.
-/

namespace BromiumCoreUtils

open Machine

namespace BRURetry

variable {U D K : Type}

/-- How one entry changes the last attempt and its report. -/
def noteAttempt (last : Nat × Option ContinuationResult) :
    RetryObservation U D K → Nat × Option ContinuationResult
  | .performAction attempt => (attempt, none)
  | .continuation attempt result => if attempt = last.1 then (attempt, some result) else last
  | _ => last

/-- The last attempt of a log, and what its continuation block reported. -/
def lastAttempt (log : List (RetryObservation U D K)) : Nat × Option ContinuationResult :=
  log.foldl noteAttempt (0, none)

/-- What the continuation block of the last attempt reported. -/
def lastReport (log : List (RetryObservation U D K)) : Option ContinuationResult :=
  (lastAttempt log).2

@[simp] theorem lastAttempt_concat (log : List (RetryObservation U D K))
    (o : RetryObservation U D K) :
    lastAttempt (log ++ [o]) = noteAttempt (lastAttempt log) o := by
  simp [lastAttempt]

/-- The entries that are not about an attempt. -/
def Unrelated (o : RetryObservation U D K) : Prop :=
  (∀ attempt, o ≠ .performAction attempt) ∧ ∀ attempt result, o ≠ .continuation attempt result

theorem noteAttempt_unrelated {o : RetryObservation U D K} (ho : Unrelated o)
    (last : Nat × Option ContinuationResult) : noteAttempt last o = last := by
  cases o with
  | performAction attempt => exact absurd rfl (ho.1 attempt)
  | continuation attempt result => exact absurd rfl (ho.2 attempt result)
  | _ => rfl

theorem lastAttempt_append (log : List (RetryObservation U D K))
    {entries : List (RetryObservation U D K)} (hentries : ∀ o ∈ entries, Unrelated o) :
    lastAttempt (log ++ entries) = lastAttempt log := by
  induction entries using List.reverseRecOn with
  | nil => rw [List.append_nil]
  | append_singleton entries o ih =>
    rw [← List.append_assoc, lastAttempt_concat, noteAttempt_unrelated (hentries o (by simp)),
      ih fun o' ho' => hentries o' (List.mem_append_left _ ho')]

/-! ## No work at all -/

/-- No piece of work of an attempt is out. -/
structure NoWork (r : BRURetry U D K) : Prop where
  action : ∀ attempt, .action attempt ∉ r.targetQueue
  policy : ∀ success error attempt nextDelay,
    .policy success error attempt nextDelay ∉ r.targetQueue
  continuations : r.continuations = []
  syncQueue : r.syncQueue = []

theorem noWork_of_attemptWork {r : BRURetry U D K} (h : r.attemptWork = 0) : NoWork r := by
  rw [attemptWork_eq] at h
  refine
    { action := ?_, policy := ?_, continuations := ?_, syncQueue := ?_ }
  · intro attempt hmem
    have hpos := List.countP_pos_iff (p := RetryTargetBlock.isAction).mpr
      ⟨_, hmem, rfl⟩
    omega
  · intro success error attempt nextDelay hmem
    have hpos := List.countP_pos_iff (p := RetryTargetBlock.isPolicy).mpr
      ⟨_, hmem, rfl⟩
    omega
  · exact List.eq_nil_of_length_eq_zero (by omega)
  · exact List.eq_nil_of_length_eq_zero (by omega)

/-- A continuation block that is called was the one piece of work. -/
theorem noWork_of_uncalled {r : BRURetry U D K} (hout : SingleOutstanding r) {attempt : Nat}
    (hmem : attempt ∈ r.continuations) :
    NoWork { r with continuations := r.continuations.erase attempt } ∧
      (r.state = .activeWaiting ∨ r.state = .activeCancelling) := by
  have hlen := List.length_erase_of_mem hmem
  have hpos := List.length_pos_of_mem hmem
  obtain ⟨hactive, hone, _⟩ := hout.active_of_work (by rw [attemptWork_eq]; omega)
  refine ⟨noWork_of_attemptWork ?_, hactive⟩
  rw [attemptWork_eq] at hone ⊢
  show _ + _ + (r.continuations.erase attempt).length + _ = 0
  simp only
  omega

/-- A policy block that runs was the one piece of work. -/
theorem noWork_of_asked {r : BRURetry U D K} (hout : SingleOutstanding r) {success : Bool}
    {error : Option NSError} {attempt : Nat} {nextDelay : D}
    {rest : List (RetryTargetBlock D K)}
    (hq : r.targetQueue = .policy success error attempt nextDelay :: rest) :
    NoWork { r with targetQueue := rest } := by
  apply noWork_of_attemptWork
  have hwork : r.attemptWork = attemptWork { r with targetQueue := rest } + 1 := by
    rw [attemptWork_eq, attemptWork_eq, hq]
    simp [List.countP_cons, RetryTargetBlock.isAction, RetryTargetBlock.isPolicy]
    omega
  have hone := (hout.active_of_work (by omega)).2.1
  omega

/-! ## The invariant -/

/-- Every piece of work that is out belongs to the last attempt and carries its
report. -/
structure InFlight (r : BRURetry U D K) : Prop where
  current : r.state ≠ .idle → (lastAttempt r.log).1 = r.attempt
  /-- An attempt reports nothing before its continuation block is called, -/
  action : ∀ attempt, .action attempt ∈ r.targetQueue →
    attempt = r.attempt ∧ lastReport r.log = none
  uncalled : ∀ attempt ∈ r.continuations, attempt = r.attempt ∧ lastReport r.log = none
  /-- then the report travels to `syncQueue`, -/
  called : ∀ attempt result, .continuation attempt result ∈ r.syncQueue →
    attempt = r.attempt ∧ lastReport r.log = some result
  /-- and only a failure goes further. -/
  policy : ∀ success error attempt nextDelay,
    .policy success error attempt nextDelay ∈ r.targetQueue →
      success = false ∧ attempt = r.attempt ∧
        ∃ result, lastReport r.log = some result ∧ result.success = false
  answered : ∀ success error response nextDelay,
    .policyResult success error response nextDelay ∈ r.syncQueue →
      success = false ∧ ∃ result, lastReport r.log = some result ∧ result.success = false
  delay : r.state = .delay →
    ∃ result, lastReport r.log = some result ∧ result.success = false

namespace InFlight

variable {r r' : BRURetry U D K}

/-- The invariant says nothing about a state with no work, Delay apart. -/
theorem of_noWork (h : NoWork r)
    (hcurrent : r.state ≠ .idle → (lastAttempt r.log).1 = r.attempt)
    (hdelay : r.state = .delay →
      ∃ result, lastReport r.log = some result ∧ result.success = false) : InFlight r where
  current := hcurrent
  action attempt hmem := absurd hmem (h.action attempt)
  uncalled attempt hmem := by rw [h.continuations] at hmem; cases hmem
  called attempt result hmem := by rw [h.syncQueue] at hmem; cases hmem
  policy success error attempt nextDelay hmem := absurd hmem (h.policy _ _ _ _)
  answered success error response nextDelay hmem := by rw [h.syncQueue] at hmem; cases hmem
  delay := hdelay

/-- The invariant survives a step that adds no work and reports nothing. -/
theorem congr (h : InFlight r) (hidle : r'.state ≠ .idle → r.state ≠ .idle)
    (hdelay : r'.state = .delay → r.state = .delay) (hattempt : r'.attempt = r.attempt)
    (hlog : lastAttempt r'.log = lastAttempt r.log)
    (haction : ∀ attempt, .action attempt ∈ r'.targetQueue → .action attempt ∈ r.targetQueue)
    (hpolicy : ∀ success error attempt nextDelay,
      .policy success error attempt nextDelay ∈ r'.targetQueue →
        .policy success error attempt nextDelay ∈ r.targetQueue)
    (hcont : r'.continuations = r.continuations) (hsync : r'.syncQueue = r.syncQueue) :
    InFlight r' := by
  have hreport : lastReport r'.log = lastReport r.log := congrArg Prod.snd hlog
  exact
    { current := fun hs => by rw [hlog, hattempt]; exact h.current (hidle hs)
      action := fun attempt hmem => by
        rw [hattempt, hreport]; exact h.action attempt (haction attempt hmem)
      uncalled := fun attempt hmem => by
        rw [hattempt, hreport]; exact h.uncalled attempt (hcont ▸ hmem)
      called := fun attempt result hmem => by
        rw [hattempt, hreport]; exact h.called attempt result (hsync ▸ hmem)
      policy := fun success error attempt nextDelay hmem => by
        rw [hattempt, hreport]; exact h.policy _ _ _ _ (hpolicy _ _ _ _ hmem)
      answered := fun success error response nextDelay hmem => by
        rw [hreport]; exact h.answered _ _ _ _ (hsync ▸ hmem)
      delay := fun hs => by rw [hreport]; exact h.delay (hdelay hs) }

/-- A new attempt is the only work that is out. -/
theorem of_performAction (h : NoWork r) {attempt : Nat} (hstate : r'.state = .activeWaiting)
    (hattempt : r'.attempt = attempt)
    (htarget : r'.targetQueue = r.targetQueue ++ [.action attempt])
    (hcont : r'.continuations = r.continuations) (hsync : r'.syncQueue = r.syncQueue)
    (hlog : lastAttempt r'.log = (attempt, none)) : InFlight r' := by
  have hreport : lastReport r'.log = none := congrArg Prod.snd hlog
  refine
    { current := ?_, action := ?_, uncalled := ?_, called := ?_, policy := ?_,
      answered := ?_, delay := ?_ }
  · intro _
    rw [hlog, hattempt]
  · intro other hmem
    rw [htarget, List.mem_append] at hmem
    rcases hmem with hmem | hmem
    · exact absurd hmem (h.action other)
    · have heq : other = attempt := by simpa using hmem
      exact ⟨by rw [heq, hattempt], hreport⟩
  · intro other hmem
    rw [hcont, h.continuations] at hmem
    cases hmem
  · intro other result hmem
    rw [hsync, h.syncQueue] at hmem
    cases hmem
  · intro success error other nextDelay hmem
    rw [htarget, List.mem_append] at hmem
    rcases hmem with hmem | hmem
    · exact absurd hmem (h.policy _ _ _ _)
    · simp at hmem
  · intro success error response nextDelay hmem
    rw [hsync, h.syncQueue] at hmem
    cases hmem
  · intro hs
    rw [hstate] at hs
    cases hs

/-- An action that runs hands its attempt over to the continuation block. -/
theorem runAction (h : InFlight r) {attempt : Nat} {rest : List (RetryTargetBlock D K)}
    (hq : r.targetQueue = .action attempt :: rest) :
    InFlight { r with
      targetQueue := rest
      continuations := r.continuations ++ [attempt] } := by
  have hhead := h.action attempt (by rw [hq]; simp)
  refine
    { current := h.current, action := ?_, uncalled := ?_, called := h.called,
      policy := ?_, answered := h.answered, delay := h.delay }
  · intro other hmem
    exact h.action other (by rw [hq]; exact List.mem_cons_of_mem _ hmem)
  · intro other hmem
    rcases List.mem_append.mp hmem with hmem | hmem
    · exact h.uncalled other hmem
    · rw [List.mem_singleton.mp hmem]
      exact hhead
  · intro success error other nextDelay hmem
    exact h.policy _ _ _ _ (by rw [hq]; exact List.mem_cons_of_mem _ hmem)

/-- The report of an attempt is the one piece of work that is out then. -/
theorem continuation (hout : SingleOutstanding r) (h : InFlight r) {attempt : Nat}
    {result : ContinuationResult} (hmem : attempt ∈ r.continuations) :
    InFlight { r with
      continuations := r.continuations.erase attempt
      syncQueue := r.syncQueue ++ [.continuation attempt result]
      log := r.log ++ [.continuation attempt result] } := by
  obtain ⟨hnone, hactive⟩ := noWork_of_uncalled hout hmem
  have hattempt := (h.uncalled attempt hmem).1
  have hrunning : r.state ≠ .idle := by rcases hactive with hs | hs <;> rw [hs] <;> simp
  have hcont : r.continuations.erase attempt = [] := hnone.continuations
  have hsync : r.syncQueue = [] := hnone.syncQueue
  have hlog : lastAttempt (r.log ++ [.continuation attempt result]) =
      (attempt, some result) := by
    rw [lastAttempt_concat, noteAttempt, h.current hrunning, if_pos hattempt]
  have hreport : lastReport (r.log ++ [.continuation attempt result]) = some result :=
    congrArg Prod.snd hlog
  refine
    { current := ?_, action := ?_, uncalled := ?_, called := ?_, policy := ?_,
      answered := ?_, delay := ?_ }
  · intro _
    rw [hlog]
    exact hattempt
  · intro other ho
    exact absurd ho (hnone.action other)
  · intro other ho
    rw [hcont] at ho
    cases ho
  · intro other result' ho
    have heq : other = attempt ∧ result' = result := by simpa [hsync] using ho
    rw [heq.1, heq.2]
    exact ⟨hattempt, hreport⟩
  · intro success error other nextDelay ho
    exact absurd ho (hnone.policy _ _ _ _)
  · intro success error response nextDelay ho
    simp [hsync] at ho
  · intro hdelay
    rcases hactive with hs | hs <;> rw [hs] at hdelay <;> cases hdelay

/-- The policy is asked about the failure that the attempt reported. -/
theorem askPolicy (h : InFlight r) {attempt : Nat} {result : ContinuationResult}
    {rest : List (RetrySyncBlock D)}
    (hq : r.syncQueue = .continuation attempt result :: rest)
    (hfailure : result.success = false) :
    InFlight { r with
      syncQueue := rest
      targetQueue := r.targetQueue ++
        [.policy false result.error attempt r.currentDelay] } := by
  have hhead := h.called attempt result (by rw [hq]; simp)
  refine
    { current := h.current, action := ?_, uncalled := h.uncalled, called := ?_,
      policy := ?_, answered := ?_, delay := h.delay }
  · intro other hmem
    apply h.action
    simpa using hmem
  · intro other result' hmem
    exact h.called other result' (by rw [hq]; exact List.mem_cons_of_mem _ hmem)
  · intro success error other nextDelay hmem
    rcases List.mem_append.mp hmem with hmem | hmem
    · exact h.policy _ _ _ _ hmem
    · simp only [List.mem_singleton, RetryTargetBlock.policy.injEq] at hmem
      obtain ⟨hs, _, hother, _⟩ := hmem
      exact ⟨hs, hother.trans hhead.1, result, hhead.2, hfailure⟩
  · intro success error response nextDelay hmem
    exact h.answered _ _ _ _ (by rw [hq]; exact List.mem_cons_of_mem _ hmem)

/-- The answer of the policy is about the same failure. -/
theorem runPolicy (h : InFlight r) {success : Bool} {error : Option NSError} {attempt : Nat}
    {nextDelay left : D} {response : BRURetryPolicyResponse}
    {rest : List (RetryTargetBlock D K)}
    (hq : r.targetQueue = .policy success error attempt nextDelay :: rest) :
    InFlight { r with
      targetQueue := rest
      syncQueue := r.syncQueue ++ [.policyResult success error response left]
      log := r.log ++ [.policy attempt error nextDelay response left] } := by
  have hlog : lastAttempt (r.log ++ [.policy attempt error nextDelay response left]) =
      lastAttempt r.log := by
    rw [lastAttempt_concat, noteAttempt_unrelated ⟨by simp, by simp⟩]
  have hhead := h.policy success error attempt nextDelay (by rw [hq]; simp)
  have hreport : lastReport (r.log ++ [.policy attempt error nextDelay response left]) =
      lastReport r.log := congrArg Prod.snd hlog
  refine
    { current := ?_, action := ?_, uncalled := ?_, called := ?_, policy := ?_,
      answered := ?_, delay := ?_ }
  · intro hs
    rw [hlog]
    exact h.current hs
  · intro other hmem
    rw [hreport]
    exact h.action other (by rw [hq]; exact List.mem_cons_of_mem _ hmem)
  · rw [hreport]
    exact h.uncalled
  · intro other result' hmem
    rw [hreport]
    rcases List.mem_append.mp hmem with hmem | hmem
    · exact h.called other result' hmem
    · simp at hmem
  · intro success' error' other nextDelay' hmem
    rw [hreport]
    exact h.policy _ _ _ _ (by rw [hq]; exact List.mem_cons_of_mem _ hmem)
  · intro success' error' response' nextDelay' hmem
    rw [hreport]
    rcases List.mem_append.mp hmem with hmem | hmem
    · exact h.answered _ _ _ _ hmem
    · simp only [List.mem_singleton, RetrySyncBlock.policyResult.injEq] at hmem
      rw [hmem.1]
      exact ⟨hhead.1, hhead.2.2⟩
  · rw [hreport]
    exact h.delay

end InFlight

/-! ## The steps -/

theorem lastAttempt_withCompletion (completion : Option K) (r : BRURetry U D K) :
    lastAttempt (r.withCompletion completion).log = lastAttempt r.log := by
  obtain ⟨entries, hlog, hentries⟩ := withCompletion_log r completion
  rw [hlog]
  apply lastAttempt_append
  intro o ho
  obtain ⟨run, block, hreg⟩ := hentries o ho
  rw [hreg]
  exact ⟨by simp, by simp⟩

theorem lastAttempt_record {o : RetryObservation U D K} (ho : Unrelated o)
    (r : BRURetry U D K) : lastAttempt (r.record o).log = lastAttempt r.log := by
  rw [record, lastAttempt_concat, noteAttempt_unrelated ho]

/-- The events that neither begin an attempt nor report one. -/
def Event.quiet : Event U D K → Bool
  | .start .. => false
  | .continuation .. => false
  | .timerCallback => false
  | _ => true

theorem Event.unrelated_of_quiet {e : Event U D K} {o : RetryObservation U D K}
    (hquiet : e.quiet = true) (hlogs : e.logs o = true) : Unrelated o := by
  constructor
  · rintro attempt rfl
    cases e <;> simp_all [Event.quiet, Event.logs]
  · rintro attempt result rfl
    cases e <;> simp_all [Event.quiet, Event.logs]

variable [DecidableEq U] [ToString U] [NSTimeInterval D]

theorem lastAttempt_of_quiet {r r' : BRURetry U D K} {e : Event U D K}
    (hstep : step r e = .ok r') (hquiet : e.quiet = true) :
    lastAttempt r'.log = lastAttempt r.log := by
  obtain ⟨entries, hlog, hentries⟩ := step_log hstep
  rw [hlog]
  apply lastAttempt_append
  intro o ho
  exact Event.unrelated_of_quiet hquiet (hentries o ho)

omit [DecidableEq U] [ToString U] in
theorem inFlight_init (delay : D) :
    InFlight (initWithActionBlock delay : BRURetry U D K) :=
  .of_noWork (noWork_of_attemptWork rfl) (fun h => absurd rfl h) (fun h => by cases h)

/-- One step keeps the invariant. -/
theorem step_inFlight {r r' : BRURetry U D K} {e : Event U D K}
    (hout : SingleOutstanding r) (h : InFlight r) (hstep : step r e = .ok r') :
    InFlight r' := by
  have hout' := step_singleOutstanding hout hstep
  have hidle : r'.state = .idle → InFlight r' := by
    intro hs
    refine .of_noWork (noWork_of_attemptWork (hout'.idle hs).1) (fun hne => absurd hs hne) ?_
    intro hdelay
    rw [hs] at hdelay
    cases hdelay
  have hquiet := lastAttempt_of_quiet hstep
  cases step_transition hstep with
  | @startIdle uuid completion hs =>
    have hnone := noWork_of_attemptWork (hout.idle hs).1
    have hattempt : (((r.begun uuid).withCompletion completion).record
        (.start .idle (some uuid))).attempt = (r.attempt + 1) % 2 ^ 64 := by
      rw [record, withCompletion_attempt]
      rfl
    refine .of_performAction hnone ?_ hattempt ?_ ?_ ?_ ?_
    · simp [record, begun]
    · simp [record, begun]
    · simp [record, begun]
    · simp [record, begun]
    · rw [lastAttempt_record ⟨by simp, by simp⟩, lastAttempt_withCompletion, begun,
        lastAttempt_concat]
      rfl
  | @startJoin uuid completion hs =>
    refine h.congr ?_ ?_ ?_ ?_ ?_ ?_ ?_ ?_
    · simp [record]
    · simp [record]
    · simp [record]
    · rw [lastAttempt_record ⟨by simp, by simp⟩, lastAttempt_withCompletion]
    · simp [record]
    · simp [record]
    · simp [record]
    · simp [record]
  | @startRestore uuid completion hs =>
    refine h.congr ?_ ?_ ?_ ?_ ?_ ?_ ?_ ?_
    · simp [hs]
    · simp [record]
    · simp [record]
    · rw [lastAttempt_record ⟨by simp, by simp⟩, lastAttempt_withCompletion]
    · simp [record]
    · simp [record]
    · simp [record]
    · simp [record]
  | cancelIgnored _ =>
    exact h.congr id id rfl (hquiet rfl) (fun _ hm => hm) (fun _ _ _ _ hm => hm) rfl rfl
  | cancelDelay _ _ => exact hidle (by simp [record, released])
  | cancelWaiting _ hs _ =>
    refine h.congr ?_ ?_ rfl (hquiet rfl) (fun _ hm => hm) (fun _ _ _ _ hm => hm) rfl rfl
    · simp [hs]
    · simp [record]
  | runAction hq => exact h.runAction hq
  | continuation hmem => exact h.continuation hout hmem
  | askPolicy hq hfailure _ _ _ => exact h.askPolicy hq hfailure
  | finish _ _ _ => exact hidle (by simp [terminated])
  | runPolicy hq => exact h.runPolicy hq
  | policyStop _ _ => exact hidle (by simp [terminated])
  | @policyRetry success error response nextDelay rest hq _ _ =>
    have hhead := h.answered success error response nextDelay (by rw [hq]; simp)
    have hnone := noWork_of_attemptWork (hout'.delay rfl).1
    refine .of_noWork hnone ?_ ?_
    · intro _
      rw [hquiet rfl]
      apply h.current
      rcases (hout.of_syncQueue hq).1 with hs | hs <;> rw [hs] <;> simp
    · intro _
      rw [lastReport, hquiet rfl]
      exact hhead.2
  | timerCallback htimer _ =>
    have hnone := noWork_of_attemptWork (hout.delay_of_timer (by rw [htimer]; simp)).2
    exact .of_performAction hnone rfl rfl rfl rfl rfl (lastAttempt_concat _ _)
  | @runDeferred run deferred blocks hrun =>
    refine h.congr id id rfl (hquiet rfl) ?_ ?_ rfl rfl
    · intro attempt hmem
      simpa using hmem
    · intro success error attempt nextDelay hmem
      simpa using hmem
  | @runCompletion run block rest hq =>
    refine h.congr id id rfl (hquiet rfl) ?_ ?_ rfl rfl
    · intro attempt hmem
      rw [hq]
      exact List.mem_cons_of_mem _ hmem
    · intro success error attempt nextDelay hmem
      rw [hq]
      exact List.mem_cons_of_mem _ hmem

theorem inFlight_of_reachable {delay : D} {r : BRURetry U D K}
    (h : Reachable step (initWithActionBlock delay) r) : InFlight r := by
  refine h.invariant (inFlight_init delay) ?_
  intro r e r' hr hinv hstep
  exact step_inFlight (invariants_of_reachable hr).1 hinv hstep

end BRURetry

end BromiumCoreUtils
