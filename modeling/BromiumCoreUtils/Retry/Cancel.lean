import BromiumCoreUtils.Retry.Attempt

/-!
# Cancellation is honoured

`AfterCancel` is the invariant of a run that was cancelled and not restored:
it is still ActiveCancelling, or it was resolved with the outcome that the
attempt in flight leaves to it.  `step_afterCancel` is its step lemma.

`Live` is what the log says about a run that can be cancelled: since the start
that began or restored it, no `cancel:` with its identifier returned `YES`.
-/

namespace BromiumCoreUtils

open Machine

namespace BRURetry

variable {U D K : Type}

/-! ## The outcome of a cancelled run -/

/-- The last attempt reported success. -/
def Succeeded (log : List (RetryObservation U D K)) : Prop :=
  ∃ result, lastReport log = some result ∧ result.success = true

/-- A cancelled run succeeds if the attempt in flight did, and otherwise ends
with the cancellation error. -/
def CancelOutcome [ToString U] (id : U) (log : List (RetryObservation U D K))
    (result : BRURetryResult) : Prop :=
  (Succeeded log ∧ result = ⟨true, none⟩) ∨
    (¬ Succeeded log ∧ result = ⟨false, some (cancellationErrorWithIdentifier (some id))⟩)

/-- Where a cancelled run stands: its end is still to come, or it was
resolved. -/
def AfterCancel [ToString U] (run : Nat) (id : U) (r : BRURetry U D K) : Prop :=
  (r.state = .activeCancelling ∧ r.identifier = some id ∧ r.deferred = some run) ∨
    (r.state = .idle ∧ ∃ result, .resolve run result ∈ r.log ∧ CancelOutcome id r.log result)

/-- The event is no call of `startWithCompletionBlock:`. -/
def Event.NotStart (e : Event U D K) : Prop :=
  ∀ uuid completionBlock, e ≠ .start uuid completionBlock

theorem succeeded_congr {log log' : List (RetryObservation U D K)}
    (h : lastAttempt log' = lastAttempt log) : Succeeded log' ↔ Succeeded log := by
  rw [Succeeded, Succeeded, lastReport, lastReport, h]

theorem not_succeeded {log : List (RetryObservation U D K)} {result : ContinuationResult}
    (hreport : lastReport log = some result) (hfailure : result.success = false) :
    ¬ Succeeded log := by
  rintro ⟨other, hother, hsuccess⟩
  rw [hreport] at hother
  injection hother with heq
  rw [← heq, hfailure] at hsuccess
  cases hsuccess

section Outcome

variable [ToString U] {id : U} {run : Nat} {r : BRURetry U D K}

theorem CancelOutcome.congr {log log' : List (RetryObservation U D K)}
    {result : BRURetryResult} (h : CancelOutcome id log result)
    (hlog : lastAttempt log' = lastAttempt log) : CancelOutcome id log' result := by
  rw [CancelOutcome, succeeded_congr hlog]
  exact h

/-- What is in flight decides how a cancelled run ends. -/
theorem afterCancel_terminated {success : Bool} {error : Option NSError}
    (hid : r.identifier = some id) (hdef : r.deferred = some run)
    (hs : r.state = .activeCancelling) (hsuccess : success = true ↔ Succeeded r.log)
    (herror : success = true → error = none) :
    AfterCancel run id (r.terminated success error) := by
  have hlog : (r.terminated success error).log =
      r.log ++ [.resolve run (r.finalResult success error)] := by
    rw [terminated, resolve_log, hdef]
    rfl
  refine Or.inr ⟨by simp [terminated], r.finalResult success error, ?_, ?_⟩
  · rw [hlog]
    simp
  · have hsame : lastAttempt (r.terminated success error).log = lastAttempt r.log := by
      rw [hlog, lastAttempt_concat, noteAttempt_unrelated ⟨by simp, by simp⟩]
    rw [CancelOutcome, succeeded_congr hsame]
    cases success with
    | true =>
      left
      refine ⟨hsuccess.mp rfl, ?_⟩
      simp [finalResult, herror rfl]
    | false =>
      right
      refine ⟨fun hyes => ?_, ?_⟩
      · have := hsuccess.mpr hyes
        cases this
      · simp [finalResult, hs, hid]

end Outcome

variable [DecidableEq U] [ToString U] [NSTimeInterval D]

/-- What a `cancel:` that returns `YES` has done. -/
theorem cancel_yes {r r' : BRURetry U D K} {id : U} (h : cancel id r = .ok (true, r')) :
    r.identifier = some id ∧
      ((r.state = .delay ∧ r' = r.released) ∨
        (r.state = .activeWaiting ∧ r' = { r with state := .activeCancelling })) := by
  by_cases hid : isEqual r.identifier (some id) = true
  · refine ⟨(isEqual_iff.mp hid).1, ?_⟩
    cases hs : r.state with
    | idle => simp [cancel, hid, hs] at h
    | delay =>
      left
      refine ⟨rfl, ?_⟩
      simp only [cancel, hid, hs, Bool.true_eq_false, if_false, bind_eq_ok, pure_eq_ok,
        Prod.mk.injEq, true_and] at h
      obtain ⟨_, _, h⟩ := h
      rw [← h]
      rfl
    | activeWaiting =>
      right
      refine ⟨rfl, ?_⟩
      simp only [cancel, hid, hs, Bool.true_eq_false, if_false, bind_eq_ok, pure_eq_ok,
        Prod.mk.injEq, true_and] at h
      obtain ⟨_, _, h⟩ := h
      rw [← h]
    | activeCancelling => simp [cancel, hid, hs] at h
  · have hno : isEqual r.identifier (some id) = false := by simpa using hid
    simp [cancel, hno] at h

/-- `cancel:` with another identifier does nothing. -/
theorem cancel_foreign {r : BRURetry U D K} {id : U} (h : r.identifier ≠ some id) :
    cancel id r = .ok (false, r) := by
  have hno : isEqual r.identifier (some id) = false := by
    rw [Bool.eq_false_iff]
    intro heq
    exact h (isEqual_iff.mp heq).1
  rw [cancel, if_pos hno]
  rfl

/-- The step that a `cancel:` takes. -/
theorem step_cancel {r r' : BRURetry U D K} {id : U} {success : Bool}
    (h : cancel id r = .ok (success, r')) :
    step r (.cancel id) = .ok (r'.record (.cancel id success)) := by
  simp [step, h, bind, Except.bind, pure, Except.pure]

/-! ## A cancelled run never comes back -/

/-- In Idle no work is left, so an event other than a start leaves the state
and the last attempt as they are. -/
theorem step_idle {r r' : BRURetry U D K} {e : Event U D K} (hout : SingleOutstanding r)
    (hs : r.state = .idle) (he : e.NotStart) (hstep : step r e = .ok r') :
    r'.state = .idle ∧ e.quiet = true := by
  obtain ⟨hwork, htimer⟩ := hout.idle hs
  have hnone := noWork_of_attemptWork hwork
  cases step_transition hstep with
  | startIdle => exact absurd rfl (he _ _)
  | startJoin => exact absurd rfl (he _ _)
  | startRestore => exact absurd rfl (he _ _)
  | cancelIgnored _ => exact ⟨hs, rfl⟩
  | cancelDelay _ hd => rw [hs] at hd; cases hd
  | cancelWaiting _ hw _ => rw [hs] at hw; cases hw
  | @runAction attempt rest hq => exact absurd (by rw [hq]; simp) (hnone.action attempt)
  | continuation hmem => rw [hnone.continuations] at hmem; cases hmem
  | askPolicy hq _ _ _ _ => rw [hnone.syncQueue] at hq; cases hq
  | finish hq _ _ => rw [hnone.syncQueue] at hq; cases hq
  | @runPolicy _ _ success error attempt nextDelay rest hq =>
    exact absurd (by rw [hq]; simp) (hnone.policy success error attempt nextDelay)
  | policyStop hq _ => rw [hnone.syncQueue] at hq; cases hq
  | policyRetry hq _ _ => rw [hnone.syncQueue] at hq; cases hq
  | timerCallback ht _ => rw [htimer] at ht; cases ht
  | runDeferred _ => exact ⟨hs, rfl⟩
  | runCompletion _ => exact ⟨hs, rfl⟩

/-- One step that is no start keeps a cancelled run cancelled. -/
theorem step_afterCancel {r r' : BRURetry U D K} {e : Event U D K} {run : Nat} {id : U}
    (hout : SingleOutstanding r) (hflight : InFlight r) (h : AfterCancel run id r)
    (he : e.NotStart) (hstep : step r e = .ok r') : AfterCancel run id r' := by
  rcases h with ⟨hs, hid, hdef⟩ | ⟨hs, result, hmem, houtcome⟩
  · cases step_transition hstep with
    | startIdle => exact absurd rfl (he _ _)
    | startJoin => exact absurd rfl (he _ _)
    | startRestore => exact absurd rfl (he _ _)
    | cancelIgnored _ => exact Or.inl ⟨hs, hid, hdef⟩
    | cancelDelay _ hd => rw [hs] at hd; cases hd
    | cancelWaiting _ hw _ => rw [hs] at hw; cases hw
    | runAction _ => exact Or.inl ⟨hs, hid, hdef⟩
    | continuation _ => exact Or.inl ⟨hs, hid, hdef⟩
    | askPolicy _ _ _ hne _ => exact absurd hs hne
    | @finish attempt result rest hq hconsistent _ =>
      obtain ⟨_, hreport⟩ := hflight.called attempt result (by rw [hq]; simp)
      refine afterCancel_terminated (r := { r with syncQueue := rest }) hid hdef hs ?_ ?_
      · constructor
        · intro hsuccess
          exact ⟨result, hreport, hsuccess⟩
        · intro hyes
          by_contra hfailure
          exact not_succeeded hreport (by simpa using hfailure) hyes
      · intro hsuccess
        rw [hconsistent] at hsuccess
        exact Option.isNone_iff_eq_none.mp hsuccess
    | runPolicy _ => exact Or.inl ⟨hs, hid, hdef⟩
    | @policyStop success error response nextDelay rest hq _ =>
      obtain ⟨hfailure, result, hreport, hresult⟩ :=
        hflight.answered success error response nextDelay (by rw [hq]; simp)
      refine afterCancel_terminated (r := { r with syncQueue := rest }) hid hdef hs ?_ ?_
      · constructor
        · intro hsuccess
          rw [hfailure] at hsuccess
          cases hsuccess
        · intro hyes
          exact absurd hyes (not_succeeded hreport hresult)
      · intro hsuccess
        rw [hfailure] at hsuccess
        cases hsuccess
    | policyRetry _ hterm _ => exact absurd (Or.inr (Or.inl hs)) hterm
    | timerCallback ht _ =>
      rw [(hout.active (Or.inr hs)).2] at ht
      cases ht
    | runDeferred _ => exact Or.inl ⟨hs, hid, hdef⟩
    | runCompletion _ => exact Or.inl ⟨hs, hid, hdef⟩
  · obtain ⟨hs', hquiet⟩ := step_idle hout hs he hstep
    obtain ⟨entries, hlog, _⟩ := step_log hstep
    refine Or.inr ⟨hs', result, ?_, houtcome.congr (lastAttempt_of_quiet hstep hquiet)⟩
    rw [hlog]
    exact List.mem_append_left _ hmem

/-- A cancelled run performs no action. -/
theorem step_no_performAction {r r' : BRURetry U D K} {e : Event U D K} {run : Nat} {id : U}
    (hout : SingleOutstanding r) (h : AfterCancel run id r) (he : e.NotStart)
    (hstep : step r e = .ok r') : ∃ entries, r'.log = r.log ++ entries ∧
      ∀ o ∈ entries, ∀ attempt, o ≠ .performAction attempt := by
  obtain ⟨entries, hlog, hentries⟩ := step_log hstep
  refine ⟨entries, hlog, ?_⟩
  intro o ho attempt heq
  have hlogs := hentries o ho
  rw [heq] at hlogs
  cases e with
  | start uuid completion => exact he _ _ rfl
  | timerCallback =>
    -- no timer is armed
    have hnone : r.timer = none := by
      rcases h with ⟨hs, _⟩ | ⟨hs, _⟩
      · exact (hout.active (Or.inr hs)).2
      · exact (hout.idle hs).2
    simp [step, hnone] at hstep
  | _ => cases hlogs

/-- The next result ends a cancelled run. -/
theorem step_runSync_idle {r r' : BRURetry U D K} (hs : r.state = .activeCancelling)
    (hstep : step r .runSync = .ok r') : r'.state = .idle := by
  cases step_transition hstep with
  | askPolicy _ _ _ hne _ => exact absurd hs hne
  | finish _ _ _ => simp [terminated]
  | policyStop _ _ => simp [terminated]
  | policyRetry _ hterm _ => exact absurd (Or.inr (Or.inl hs)) hterm

/-- Right after a `cancel:` that returned `YES`. -/
theorem afterCancel_of_cancel {r r' : BRURetry U D K} {id : U} {run : Nat}
    (hflight : InFlight r) (hdef : r.deferred = some run)
    (hcancel : cancel id r = .ok (true, r')) :
    AfterCancel run id (r'.record (.cancel id true)) := by
  obtain ⟨hid, ⟨hs, heq⟩ | ⟨hs, heq⟩⟩ := cancel_yes hcancel
  · -- Delay: the last attempt has failed and the run is resolved at once
    obtain ⟨result, hreport, hfailure⟩ := hflight.delay hs
    have hsame := lastAttempt_of_quiet (step_cancel hcancel) rfl
    refine Or.inr ⟨by simp [record, heq, released],
      ⟨false, some (cancellationErrorWithIdentifier (some id))⟩, ?_, Or.inr ⟨?_, rfl⟩⟩
    · simp [record, heq, released, hdef, hid]
    · rw [succeeded_congr hsame]
      exact not_succeeded hreport hfailure
  · rw [heq]
    exact Or.inl ⟨rfl, hid, hdef⟩

/-- The whole stretch from a `cancel:` on, without a start. -/
theorem run_afterCancel {delay : D} {r r' t : BRURetry U D K} {id : U} {run : Nat}
    {events : List (Event U D K)} (hreach : Reachable step (initWithActionBlock delay) r)
    (hdef : r.deferred = some run) (hcancel : cancel id r = .ok (true, r'))
    (hevents : ∀ e ∈ events, e.NotStart)
    (hrun : Machine.run step (r'.record (.cancel id true)) events = .ok t) :
    AfterCancel run id t ∧
      ∃ entries, t.log = (r'.record (.cancel id true)).log ++ entries ∧
        ∀ o ∈ entries, ∀ attempt, o ≠ .performAction attempt := by
  have hall : Reachable step (initWithActionBlock delay) t ∧ AfterCancel run id t ∧
      ∃ entries, t.log = (r'.record (.cancel id true)).log ++ entries ∧
        ∀ o ∈ entries, ∀ attempt, o ≠ .performAction attempt := by
    refine run_invariant_of_allSteps
      (I := fun t => Reachable step (initWithActionBlock delay) t ∧ AfterCancel run id t ∧
        ∃ entries, t.log = (r'.record (.cancel id true)).log ++ entries ∧
          ∀ o ∈ entries, ∀ attempt, o ≠ .performAction attempt) ?_ ?_
      (allSteps_of_forall hevents _) hrun
    · intro m e n he hinv hmn
      obtain ⟨hm, hafter, entries, hlog, hentries⟩ := hinv
      obtain ⟨hout, _⟩ := invariants_of_reachable hm
      obtain ⟨entries', hlog', hentries'⟩ := step_no_performAction hout hafter he hmn
      refine ⟨hm.next hmn, step_afterCancel hout (inFlight_of_reachable hm) hafter he hmn,
        entries ++ entries', by rw [hlog', hlog, List.append_assoc], ?_⟩
      intro o ho
      rcases List.mem_append.mp ho with ho | ho
      · exact hentries o ho
      · exact hentries' o ho
    · exact ⟨hreach.next (step_cancel hcancel),
        afterCancel_of_cancel (inFlight_of_reachable hreach) hdef hcancel, [], by simp⟩
  exact hall.2

/-! ## Two cancels of one run -/

/-- A start that began or restored the run of `id`. -/
def Begins (id : U) (o : RetryObservation U D K) : Prop :=
  o = .start .idle (some id) ∨ o = .start .activeCancelling (some id)

/-- A run that can be cancelled was not cancelled since it began or was last
restored. -/
def Live (r : BRURetry U D K) : Prop :=
  ∀ id, r.identifier = some id → r.state = .activeWaiting ∨ r.state = .delay →
    Log.Since (Begins id) (fun o => o ≠ .cancel id true) r.log

/-- A `cancel:` that returned `YES` found such a run, and that run has
begun. -/
def CancelsLive (before : List (RetryObservation U D K))
    (o : RetryObservation U D K) : Prop :=
  ∀ id, o = .cancel id true →
    Log.Since (Begins id) (fun o => o ≠ .cancel id true) before ∧
      .start .idle (some id) ∈ before

omit [DecidableEq U] [ToString U] [NSTimeInterval D] in
/-- `Live` survives a step that logs no cancel and makes no run cancellable. -/
theorem Live.congr {r r' : BRURetry U D K} (h : Live r)
    (hid : r'.state = .activeWaiting ∨ r'.state = .delay →
      r'.identifier = r.identifier ∧ (r.state = .activeWaiting ∨ r.state = .delay))
    (hlog : ∃ entries, r'.log = r.log ++ entries ∧ ∀ o ∈ entries, ∀ id, o ≠ .cancel id true) :
    Live r' := by
  intro id hid' hs
  obtain ⟨heq, hs'⟩ := hid hs
  obtain ⟨entries, hlog, hentries⟩ := hlog
  rw [hlog]
  exact (h id (heq ▸ hid') hs').append fun o ho => hentries o ho id

/-- Only `cancel:` logs a cancel. -/
theorem step_log_not_cancel {r r' : BRURetry U D K} {e : Event U D K}
    (hstep : step r e = .ok r') (he : ∀ id, e ≠ .cancel id) :
    ∃ entries, r'.log = r.log ++ entries ∧
      ∀ o ∈ entries, ∀ id success, o ≠ .cancel id success := by
  obtain ⟨entries, hlog, hentries⟩ := step_log hstep
  refine ⟨entries, hlog, ?_⟩
  intro o ho id success heq
  have hlogs := hentries o ho
  rw [heq] at hlogs
  cases e with
  | cancel id' => exact he id' rfl
  | _ => cases hlogs

theorem step_live {r r' : BRURetry U D K} {e : Event U D K} (hout : SingleOutstanding r)
    (h : Live r) (hstep : step r e = .ok r') : Live r' := by
  have hlog : (∀ id, e ≠ .cancel id) → ∃ entries, r'.log = r.log ++ entries ∧
      ∀ o ∈ entries, ∀ id, o ≠ .cancel id true := by
    intro he
    obtain ⟨entries, hlog, hentries⟩ := step_log_not_cancel hstep he
    exact ⟨entries, hlog, fun o ho id => hentries o ho id true⟩
  cases step_transition hstep with
  | @startIdle uuid completion _ =>
    intro id hid _
    have heq : id = uuid := by simpa [record, begun, eq_comm] using hid
    rw [heq]
    exact Log.since_concat_iff.mpr (Or.inl (Or.inl rfl))
  | @startJoin uuid completion hs =>
    apply h.congr
    · intro _
      exact ⟨by simp [record], hs.symm⟩
    · exact hlog (by simp)
  | @startRestore uuid completion _ =>
    intro id hid _
    have heq : r.identifier = some id := by simpa [record] using hid
    rw [record, heq]
    exact Log.since_concat_iff.mpr (Or.inl (Or.inr rfl))
  | @cancelIgnored id _ =>
    apply h.congr
    · intro hs
      exact ⟨rfl, hs⟩
    · exact ⟨_, rfl, by simp⟩
  | cancelDelay _ _ =>
    intro id hid
    simp [record, released] at hid
  | cancelWaiting _ _ _ =>
    intro id _ hs
    rcases hs with hs | hs <;> cases hs
  | runAction _ => exact h.congr (fun hs => ⟨rfl, hs⟩) (hlog (by simp))
  | continuation _ => exact h.congr (fun hs => ⟨rfl, hs⟩) (hlog (by simp))
  | askPolicy _ _ _ _ _ => exact h.congr (fun hs => ⟨rfl, hs⟩) (hlog (by simp))
  | finish _ _ _ =>
    intro id hid
    simp [terminated] at hid
  | runPolicy _ => exact h.congr (fun hs => ⟨rfl, hs⟩) (hlog (by simp))
  | policyStop _ _ =>
    intro id hid
    simp [terminated] at hid
  | policyRetry hq hterm _ =>
    apply h.congr
    · intro _
      refine ⟨rfl, Or.inl ?_⟩
      rcases (hout.of_syncQueue hq).1 with hs | hs
      · exact hs
      · exact absurd (Or.inr (Or.inl hs)) hterm
    · exact hlog (by simp)
  | timerCallback htimer _ =>
    apply h.congr
    · intro _
      exact ⟨rfl, Or.inr (hout.delay_of_timer (by rw [htimer]; simp)).1⟩
    · exact hlog (by simp)
  | runDeferred _ => exact h.congr (fun hs => ⟨rfl, hs⟩) (hlog (by simp))
  | runCompletion _ => exact h.congr (fun hs => ⟨rfl, hs⟩) (hlog (by simp))

omit [DecidableEq U] [ToString U] [NSTimeInterval D] in
/-- The start that began the current run is in the log. -/
theorem Consistent.start_mem {r : BRURetry U D K} (h : Consistent r) {id : U}
    (hid : r.identifier = some id) : .start .idle (some id) ∈ r.log := by
  obtain ⟨o, ho, heq⟩ := (h.initiated id hid).exists_mem
  rw [← heq]
  exact ho

theorem step_cancelsLive {r r' : BRURetry U D K} {e : Event U D K} (hcons : Consistent r)
    (hlive : Live r) (h : Log.Justified CancelsLive r.log) (hstep : step r e = .ok r') :
    Log.Justified CancelsLive r'.log := by
  by_cases he : ∃ id, e = .cancel id
  · obtain ⟨id, he⟩ := he
    rw [he] at hstep
    cases step_transition hstep with
    | cancelIgnored _ =>
      refine Log.justified_concat_iff.mpr ⟨h, ?_⟩
      intro id' heq
      simp at heq
    | cancelDelay hid hs =>
      obtain ⟨entries, hlog, hentries⟩ := released_log r
      have hquiet : ∀ o ∈ (r.timer.map fun timer =>
          (.suspend timer.address : RetryObservation U D K)).toList ++ entries,
          ∀ id', o ≠ .cancel id' true := by
        intro o ho id' heq
        rw [heq] at ho
        rcases List.mem_append.mp ho with ho | ho
        · simp at ho
        · obtain ⟨run, result, ho⟩ := hentries _ ho
          cases ho
      rw [List.append_assoc] at hlog
      refine Log.justified_concat_iff.mpr ⟨?_, ?_⟩
      · rw [hlog]
        apply h.append
        intro o ho pre id' heq
        exact absurd heq (hquiet o ho id')
      · intro id' heq
        have hsame : id = id' := by simpa using heq
        rw [← hsame, hlog]
        refine ⟨(hlive id hid (Or.inr hs)).append fun o ho => hquiet o ho id, ?_⟩
        exact List.mem_append_left _ (hcons.start_mem hid)
    | cancelWaiting hid hs _ =>
      refine Log.justified_concat_iff.mpr ⟨h, ?_⟩
      intro id' heq
      have hsame : id = id' := by simpa using heq
      rw [← hsame]
      exact ⟨hlive id hid (Or.inl hs), hcons.start_mem hid⟩
  · obtain ⟨entries, hlog, hentries⟩ :=
      step_log_not_cancel hstep fun id heq => he ⟨id, heq⟩
    rw [hlog]
    apply h.append
    intro o ho pre id heq
    exact absurd heq (hentries o ho id true)

theorem cancelsLive_of_reachable {delay : D} {r : BRURetry U D K}
    (h : Reachable step (initWithActionBlock delay) r) :
    Log.Justified CancelsLive r.log := by
  have hboth : Live r ∧ Log.Justified CancelsLive r.log := by
    refine h.invariant (I := fun r => Live r ∧ Log.Justified CancelsLive r.log) ?_ ?_
    · exact ⟨fun id hid => (by cases hid), Log.justified_nil _⟩
    · intro r e r' hr hinv hstep
      obtain ⟨hout, hcons⟩ := invariants_of_reachable hr
      exact ⟨step_live hout hinv.1 hstep, step_cancelsLive hcons hinv.1 hinv.2 hstep⟩
  exact hboth.2

/-- The identifiers that were made for the runs, in order. -/
def initiations (log : List (RetryObservation U D K)) : List U :=
  log.filterMap fun
    | .start .idle identifier => identifier
    | _ => none

omit [DecidableEq U] [ToString U] [NSTimeInterval D] in
theorem mem_initiations {log : List (RetryObservation U D K)} {id : U} :
    id ∈ initiations log ↔ .start .idle (some id) ∈ log := by
  constructor
  · intro hmem
    obtain ⟨o, ho, heq⟩ := List.mem_filterMap.mp hmem
    split at heq
    · rw [heq] at ho
      exact ho
    · cases heq
  · intro hmem
    exact List.mem_filterMap.mpr ⟨_, hmem, rfl⟩

omit [DecidableEq U] [ToString U] [NSTimeInterval D] in
/-- Between two cancels of one run there is a start that restored it. -/
theorem restored_between {log pre mid post : List (RetryObservation U D K)} {id : U}
    (h : Log.Justified CancelsLive log) (hfresh : (initiations log).Nodup)
    (hlog : log = pre ++ .cancel id true :: mid ++ .cancel id true :: post) :
    .start .activeCancelling (some id) ∈ mid := by
  have hbegin := (h pre (.cancel id true) (mid ++ .cancel id true :: post)
    (by rw [hlog]; simp) id rfl).2
  have hsince := (h (pre ++ .cancel id true :: mid) (.cancel id true) post hlog id rfl).1
  obtain ⟨o, ho, hbegins⟩ := hsince.exists_after (by simp [Begins]) (by simp)
  rcases hbegins with heq | heq
  · -- a second run with this identifier
    rw [heq] at ho
    rw [hlog, initiations, List.append_assoc, List.filterMap_append, List.nodup_append]
      at hfresh
    have hpre : id ∈ initiations pre := mem_initiations.mpr hbegin
    have hmid : id ∈ initiations (.cancel id true :: mid ++ .cancel id true :: post) :=
      mem_initiations.mpr (by simp [ho])
    exact absurd rfl (hfresh.2.2 id hpre id hmid)
  · rw [← heq]
    exact ho

/-! ## The contract -/

/-- The contract of `cancel:` in one state. -/
structure CancelContract (r : BRURetry U D K) : Prop where
  /-- A `cancel:` that returns `YES` has a run to cancel, and in Delay it ends
  it.  Without a start, in every later state no action was performed since, the
  run is on its way to its end or has the outcome of the attempt in flight,
  and the next result ends it. -/
  honoured : ∀ id r', cancel id r = .ok (true, r') → ∃ run, r.deferred = some run ∧
    (r.state = .delay → r'.state = .idle) ∧
    ∀ events t, (∀ e ∈ events, e.NotStart) →
      Machine.run step (r'.record (.cancel id true)) events = .ok t →
      (∃ entries, t.log = (r'.record (.cancel id true)).log ++ entries ∧
        ∀ o ∈ entries, ∀ attempt, o ≠ .performAction attempt) ∧
      AfterCancel run id t ∧
      ∀ t', t.state = .activeCancelling → step t .runSync = .ok t' →
        t'.state = .idle ∧ AfterCancel run id t'
  /-- Another identifier changes nothing. -/
  foreign : ∀ id, r.identifier ≠ some id → cancel id r = .ok (false, r)
  /-- Between two cancels of one run a start restored it. -/
  restored : (initiations r.log).Nodup → ∀ id pre mid post,
    r.log = pre ++ .cancel id true :: mid ++ .cancel id true :: post →
      .start .activeCancelling (some id) ∈ mid

/-- Cancellation is honoured in every reachable state. -/
theorem cancel_honoured {delay : D} {r : BRURetry U D K}
    (hreach : Reachable step (initWithActionBlock delay) r) : CancelContract r := by
  obtain ⟨hout, hcons⟩ := invariants_of_reachable hreach
  refine
    { honoured := ?_, foreign := fun _ hid => cancel_foreign hid,
      restored := fun hfresh _ _ _ _ =>
        restored_between (cancelsLive_of_reachable hreach) hfresh }
  intro id r' hcancel
  have hyes := cancel_yes hcancel
  have hrunning : r.state ≠ .idle := by
    rcases hyes.2 with ⟨hs, _⟩ | ⟨hs, _⟩ <;> rw [hs] <;> simp
  obtain ⟨run, hdef⟩ := Option.isSome_iff_exists.mp (hcons.running hrunning).2
  refine ⟨run, hdef, ?_, ?_⟩
  · intro hdelay
    rcases hyes.2 with ⟨_, heq⟩ | ⟨hs, _⟩
    · simp [heq, released]
    · rw [hs] at hdelay
      cases hdelay
  · intro events t hevents hrun
    obtain ⟨hafter, hquiet⟩ := run_afterCancel hreach hdef hcancel hevents hrun
    refine ⟨hquiet, hafter, ?_⟩
    intro t' hs hstep
    refine ⟨step_runSync_idle hs hstep, ?_⟩
    have hevents' : ∀ e ∈ events ++ [.runSync], e.NotStart := by
      intro e he
      rcases List.mem_append.mp he with he | he
      · exact hevents e he
      · rw [List.mem_singleton.mp he]
        intro _ _ heq
        cases heq
    refine (run_afterCancel hreach hdef hcancel hevents' ?_).1
    exact run_append_eq_ok.mpr ⟨t, hrun, run_cons_eq_ok.mpr ⟨t', hstep, rfl⟩⟩

/-- The first attempt fails for good after its run was cancelled. -/
theorem cancel_honoured_first_attempt : ∃ r r' t : BRURetry Nat Nat Nat,
    run step (initWithActionBlock 0) [.start 7 none] = .ok r ∧
      cancel 7 r = .ok (true, r') ∧
      run step (r'.record (.cancel 7 true))
        [.runAction, .continuation 1 ⟨false, some ⟨"d", 1, []⟩, .final⟩, .runSync] = .ok t ∧
      t.state = .idle ∧ ∃ run, AfterCancel run 7 t := by
  obtain ⟨r, r', t, hrun, hcancel, hrest, hs⟩ : ∃ r r' t : BRURetry Nat Nat Nat,
      run step (initWithActionBlock 0) [.start 7 none] = .ok r ∧
        cancel 7 r = .ok (true, r') ∧
        run step (r'.record (.cancel 7 true))
          [.runAction, .continuation 1 ⟨false, some ⟨"d", 1, []⟩, .final⟩, .runSync] = .ok t ∧
        t.state = .idle := ⟨_, _, _, rfl, rfl, rfl, rfl⟩
  obtain ⟨run, _, _, hlater⟩ := (cancel_honoured ⟨_, hrun⟩).honoured 7 r' hcancel
  have hafter := (hlater _ t (by simp [Event.NotStart]) hrest).2.1
  exact ⟨r, r', t, hrun, hcancel, hrest, hs, run, hafter⟩

end BRURetry

end BromiumCoreUtils
