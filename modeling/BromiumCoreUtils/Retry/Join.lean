import BromiumCoreUtils.Retry.Outstanding

/-!
# What a start returns

`StartContract` is the documentation of `startWithCompletionBlock:` and of
`cancel:` for a caller that joins a run.  The branches for Delay and for
ActiveWaiting assign no identifier, so the contract holds in the two other
states only.
-/

namespace BromiumCoreUtils

open Machine

namespace BRURetry

variable {U D K : Type} [DecidableEq U] [ToString U] [NSTimeInterval D]

/-- What the documentation promises to the caller of a start: an identifier,
the one of the run that is current afterwards, which is the one that the
initiating caller got, and which `cancel:` accepts. -/
def StartContract (r : BRURetry U D K) : Prop :=
  ∀ uuid completionBlock, ∃ id r',
    startWithCompletionBlock uuid completionBlock r = .ok (id, r') ∧
      r'.identifier = some id ∧
      (if r.state = .idle then id = uuid else InitiatedBy id r.log) ∧
      ∃ r'', cancel id r' = .ok (true, r'')

omit [DecidableEq U] [ToString U] in
/-- Joining a run in Delay or in ActiveWaiting returns no identifier. -/
theorem startSync_join {r : BRURetry U D K}
    (hs : r.state = .delay ∨ r.state = .activeWaiting) (uuid : U)
    (completion : Option K) {id : Option U} {r' : BRURetry U D K}
    (h : startSync uuid completion r = .ok (id, r')) : id = none := by
  rcases hs with hs | hs
  · simp [startSync, hs] at h
    exact h.2.1.symm
  · simp [startSync, hs] at h
    exact h.2.1.symm

omit [DecidableEq U] [ToString U] in
theorem startWithCompletionBlock_join_fails {r : BRURetry U D K}
    (hs : r.state = .delay ∨ r.state = .activeWaiting) (uuid : U)
    (completion : Option K) (result : U × BRURetry U D K) :
    startWithCompletionBlock uuid completion r ≠ .ok result := by
  intro h
  simp only [startWithCompletionBlock, bind_eq_ok, Prod.exists] at h
  obtain ⟨id, r', hsync, h⟩ := h
  rw [startSync_join hs uuid completion hsync] at h
  simp at h

/-- In ActiveWaiting with a positive counter `cancel:` accepts the identifier
of the run. -/
theorem cancel_accepts {r : BRURetry U D K} {id : U} (hid : r.identifier = some id)
    (hs : r.state = .activeWaiting) (hattempt : 0 < r.attempt)
    (htimer : r.timer = none) (hdef : r.deferred.isSome) :
    cancel id r = .ok (true, { r with state := .activeCancelling }) := by
  have heq : isEqual r.identifier (some id) = true :=
    isEqual_iff.mpr ⟨hid, by rw [hid]; rfl⟩
  have hinv : checkInvariants { r with state := .activeCancelling } = .ok () := by
    rw [checkInvariants, assertThat_eq_ok]
    simp [invariantsHold, hid, hattempt, htimer, hdef]
  simp [cancel, heq, hs, hinv, pure, Except.pure]

omit [DecidableEq U] [ToString U] in
/-- In Idle and in ActiveCancelling a start leaves the run in ActiveWaiting
and returns its identifier. -/
theorem startSync_active {r : BRURetry U D K} (hout : SingleOutstanding r)
    (h : Consistent r) (hs : r.state = .idle ∨ r.state = .activeCancelling) (uuid : U)
    (completion : Option K) : ∃ id r',
    startSync uuid completion r = .ok (some id, r') ∧ r'.identifier = some id ∧
      (if r.state = .idle then id = uuid else InitiatedBy id r.log) ∧
      r'.state = .activeWaiting ∧ 0 < r'.attempt ∧ r'.timer = none ∧
      r'.deferred.isSome := by
  rcases hs with hs | hs
  · obtain ⟨hattempt, _, _⟩ := h.idle hs
    have htimer := (hout.idle hs).2
    have hinv : ((r.begun uuid).withCompletion completion).checkInvariants = .ok () := by
      rw [checkInvariants, assertThat_eq_ok]
      simp [invariantsHold, begun, hattempt, htimer]
    refine ⟨uuid, (r.begun uuid).withCompletion completion, ?_, ?_⟩
    · have heq : startSync uuid completion r =
          (do checkInvariants ((r.begun uuid).withCompletion completion)
              pure (some uuid, (r.begun uuid).withCompletion completion)) := by
        cases completion <;> simp [startSync, hs, performAction, begun, withCompletion] <;> rfl
      rw [heq, hinv]
      rfl
    · simp [begun, hs, hattempt, htimer]
  · have hattempt := h.cancelling hs
    have htimer := (hout.active (Or.inr hs)).2
    obtain ⟨hid, hdef⟩ := h.running (by rw [hs]; simp)
    obtain ⟨id, hid⟩ := Option.isSome_iff_exists.mp hid
    have hinv : (withCompletion completion { r with state := .activeWaiting }).checkInvariants =
        .ok () := by
      rw [checkInvariants, assertThat_eq_ok]
      simp [invariantsHold, hattempt, htimer, hid, hdef]
    refine ⟨id, withCompletion completion { r with state := .activeWaiting }, ?_, ?_⟩
    · have heq : startSync uuid completion r =
          (do checkInvariants (withCompletion completion { r with state := .activeWaiting })
              pure (some id, withCompletion completion { r with state := .activeWaiting })) := by
        cases completion <;> simp [startSync, hs, hid, withCompletion]
      rw [heq, hinv]
      rfl
    · simp [hs, hattempt, htimer, hid, hdef, h.initiated id hid]

/-- The documentation holds in exactly two of the four states: a start that
joins a run in Delay or in ActiveWaiting ends in the final assertion. -/
theorem startContract_iff {delay : D} {r : BRURetry U D K}
    (hreach : Reachable step (initWithActionBlock delay) r) :
    StartContract r ↔ r.state = .idle ∨ r.state = .activeCancelling := by
  obtain ⟨hout, hcons⟩ := invariants_of_reachable hreach
  constructor
  · intro hcontract
    by_contra hneither
    rw [not_or] at hneither
    have hjoin : r.state = .delay ∨ r.state = .activeWaiting := by
      cases hs : r.state with
      | idle => exact absurd hs hneither.1
      | delay => exact Or.inl rfl
      | activeWaiting => exact Or.inr rfl
      | activeCancelling => exact absurd hs hneither.2
    -- the run has an identifier, so there is one to start with
    obtain ⟨uuid, _⟩ := Option.isSome_iff_exists.mp (hcons.running hneither.1).1
    obtain ⟨id, r', hstart, _⟩ := hcontract uuid none
    exact startWithCompletionBlock_join_fails hjoin uuid none (id, r') hstart
  · intro hs uuid completion
    obtain ⟨id, r', hsync, hid, hinit, hactive, hattempt, htimer, hdef⟩ :=
      startSync_active hout hcons hs uuid completion
    refine ⟨id, r', ?_, hid, hinit, _, cancel_accepts hid hactive hattempt htimer hdef⟩
    simp [startWithCompletionBlock, hsync, bind, Except.bind, pure, Except.pure]

/-- A start that joins a cancelled run gets the identifier of that run. -/
theorem startContract_cancelledRetry : ∃ r : BRURetry Nat Nat Nat,
    Reachable step (initWithActionBlock 5) r ∧ r.state = .activeCancelling ∧
      StartContract r := by
  obtain ⟨r, hrun, hs⟩ : ∃ r : BRURetry Nat Nat Nat,
      run step (initWithActionBlock 5) cancelledRetry = .ok r ∧
        r.state = .activeCancelling := ⟨_, rfl, rfl⟩
  exact ⟨r, ⟨_, hrun⟩, hs, (startContract_iff ⟨_, hrun⟩).mpr (Or.inr hs)⟩

/-- A second start right after the first one aborts. -/
theorem second_start_fails : ∃ r : BRURetry Nat Nat Nat,
    run step (initWithActionBlock 5) [.start 7 none] = .ok r ∧
      startWithCompletionBlock 8 none r = .error (.failed .nilIdentifier) ∧
      ¬ StartContract r := by
  obtain ⟨r, hrun, hfail⟩ : ∃ r : BRURetry Nat Nat Nat,
      run step (initWithActionBlock 5) [.start 7 none] = .ok r ∧
        startWithCompletionBlock 8 none r = .error (.failed .nilIdentifier) :=
    ⟨_, rfl, rfl⟩
  refine ⟨r, hrun, hfail, ?_⟩
  intro hcontract
  obtain ⟨id, r', hok, _⟩ := hcontract 8 none
  rw [hfail] at hok
  cases hok

end BRURetry

end BromiumCoreUtils
